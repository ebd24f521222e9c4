import Mathlib.Algebra.Order.Field.Power
import Mathlib.Algebra.Order.Field.Rat
import Mathlib.Algebra.Order.Ring.Rat
import Mathlib.Tactic.FieldSimp
import Mathlib.Tactic.Linarith
import Mathlib.Tactic.NormNum
import Mathlib.Tactic.Positivity
import Mathlib.Tactic.Ring
import QueueBench.Number.Shortest

/-! # Shortest digits

The search for the shortest digits of a value ends within seventeen digits, and the decimal number
that it ends with rounds to the value. -/
namespace QueueBench.Number

variable {n d s : ℕ} {e : ℤ} {i : Interval} {b : Binary}

theorem ten_zpow_mul (e : ℤ) : (10 : ℚ) ^ e * (10 ^ (-e).toNat : ℕ) = (10 ^ e.toNat : ℕ) := by
  push_cast
  rw [← zpow_natCast, ← zpow_natCast, ← zpow_add₀ (by norm_num)]
  congr 1
  omega

/-- Rounding is off by half a unit at most. -/
theorem roundDiv_bounds (n : ℕ) (hd : 0 < d) :
    2 * n ≤ 2 * (roundDiv n d * d) + d ∧ 2 * (roundDiv n d * d) ≤ 2 * n + d := by
  have hn := Nat.div_add_mod n d
  rw [Nat.mul_comm] at hn
  have hr := Nat.mod_lt n hd
  have hs : (n / d + 1) * d = n / d * d + d := by ring
  unfold roundDiv
  dsimp only
  split
  · omega
  · split
    · omega
    · split <;> omega

theorem contains_of_onGrid? (h : i.onGrid? e = some n) : i.contains n e := by
  unfold Interval.onGrid? at h
  dsimp only at h
  split at h
  · rename_i hc
    obtain rfl := Option.some.inj h
    exact hc
  · obtain ⟨hc, h⟩ := Option.ite_none_right_eq_some.mp h
    obtain rfl := Option.some.inj h
    exact hc

/-- What the search ends with is in the interval if the finest grid has such a number. -/
theorem search_contains (fuel : ℕ) (e : ℤ) (h : i.onGrid? (e - fuel) ≠ none) :
    i.contains (i.search fuel e).1 (i.search fuel e).2 := by
  induction fuel generalizing e with
  | zero =>
    obtain ⟨n, hn⟩ := Option.ne_none_iff_exists'.mp h
    rw [Nat.cast_zero, sub_zero] at hn
    rw [Interval.search, hn]
    exact contains_of_onGrid? hn
  | succ fuel ih =>
    rw [Interval.search]
    cases hn : i.onGrid? e with
    | some n => exact contains_of_onGrid? hn
    | none =>
      refine ih (e - 1) ?_
      rwa [sub_sub, add_comm, ← Nat.cast_succ]

theorem contains_of_lt {one x : ℕ} (hone : one = 10 ^ (-e).toNat)
    (hx : x = n * (i.unit * 10 ^ e.toNat)) (hlow : i.low * one < x) (hhigh : x < i.high * one) :
    i.contains n e := by
  have hn : n * 10 ^ e.toNat * i.unit = x := by
    rw [hx]
    ring
  simp only [Interval.contains, Nat.pow_eq, hn, ← hone]
  split <;> simp [hlow, hhigh, hlow.le, hhigh.le]

/-- On a grid finer than the interval, the neighbour of the value is in the interval. -/
theorem onGrid?_ne_none (hu : 0 < i.unit) (hlow : i.low + s ≤ i.value)
    (hhigh : i.value + 2 * s ≤ i.high)
    (hfine : i.unit * 10 ^ e.toNat < 2 * (s * 10 ^ (-e).toNat)) : i.onGrid? e ≠ none := by
  have hden : 0 < i.unit * 10 ^ e.toNat := Nat.mul_pos hu (Nat.pow_pos (by norm_num))
  obtain ⟨hbelow, habove⟩ := roundDiv_bounds (i.value * 10 ^ (-e).toNat) hden
  have hl := Nat.mul_le_mul_right (10 ^ (-e).toNat) hlow
  have hh := Nat.mul_le_mul_right (10 ^ (-e).toNat) hhigh
  rw [Nat.add_mul] at hl hh
  rw [Nat.mul_assoc] at hh
  have hc : i.contains (roundDiv (i.value * 10 ^ (-e).toNat) (i.unit * 10 ^ e.toNat)) e :=
    contains_of_lt rfl rfl (by omega) (by omega)
  have hg : i.onGrid? e = some _ := if_pos hc
  rw [hg]
  nofun

theorem ten_pow_digitCount (hn : 0 < n) : 10 ^ (digitCount n - 1) ≤ n := by
  rcases Nat.eq_zero_or_pos (digitCount n - 1) with h | h
  · rw [h]
    exact hn
  · have hlen := Nat.length_toDigits_le_iff (n := n) (show 1 < 10 by norm_num) h
    by_contra hlt
    have hle := hlen.mpr (Nat.lt_of_not_le hlt)
    unfold digitCount at h hle
    omega

theorem leadingExponent_eq (n d : ℕ) : leadingExponent n d =
    (digitCount (n * 10 ^ smallestPlaces / d) : ℤ) - 1 - smallestPlaces := by
  rw [leadingExponent, Nat.pow_eq]

/-- The first digit of a value is not zero. -/
theorem firstDigit_le {places : ℕ} (hd : 0 < d) (hn : d ≤ n * 10 ^ places) :
    (d : ℚ) * 10 ^ ((digitCount (n * 10 ^ places / d) : ℤ) - 1 - places) ≤ n := by
  have hk := ten_pow_digitCount (Nat.div_pos hn hd)
  have hpos : 0 < digitCount (n * 10 ^ places / d) := Nat.length_toDigits_pos
  have hle : d * 10 ^ (digitCount (n * 10 ^ places / d) - 1) ≤ n * 10 ^ places :=
    (Nat.mul_le_mul_left d hk).trans (Nat.mul_div_le _ _)
  rw [← Nat.cast_one, ← Nat.cast_sub hpos, zpow_sub₀ (by norm_num), zpow_natCast, zpow_natCast,
    ← mul_div_assoc, div_le_iff₀ (by positivity)]
  exact_mod_cast hle

structure Binary.Bounded (b : Binary) : Prop where
  mantissa : b.mantissa < 2 ^ 53
  exponent : -1074 ≤ b.exponent

theorem bounded_ofFloat (x : Float) : (Binary.ofFloat x).Bounded := by
  unfold Binary.ofFloat
  dsimp only
  have hf := Nat.mod_lt x.toBits.toNat (show 0 < 2 ^ 52 by norm_num)
  simp only [Nat.pow_eq] at *
  split
  · exact ⟨by dsimp only; omega, le_rfl⟩
  · exact ⟨by dsimp only; omega, by dsimp only; omega⟩

/-- Seventeen digits fit between the bounds of any value. -/
theorem finest_grid {e : ℤ} {unit value m : ℕ} (hm : m < 2 ^ 53) (hs : 0 < s)
    (hv : value = 4 * m * s) (he : (unit : ℚ) * 10 ^ e ≤ value) :
    unit * 10 ^ (e - 17).toNat < 2 * (s * 10 ^ (-(e - 17)).toNat) := by
  have hq : (0 : ℚ) < (10 ^ (-(e - 17)).toNat : ℕ) := by positivity
  have hs : (0 : ℚ) < s := by exact_mod_cast hs
  have hm : (m : ℚ) < 2 ^ 53 := by exact_mod_cast hm
  have hcut : (10 : ℚ) ^ (e - 17) = 10 ^ e / 10 ^ 17 := by
    rw [zpow_sub₀ (by norm_num)]
    norm_cast
  have hlt : (unit : ℚ) * 10 ^ (e - 17) < 2 * s := by
    rw [hcut, ← mul_div_assoc, div_lt_iff₀ (by positivity)]
    calc (unit : ℚ) * 10 ^ e ≤ value := he
      _ = 4 * m * s := by rw [hv]; push_cast; ring
      _ < 2 * s * 10 ^ 17 := by nlinarith
  have h : (unit : ℚ) * (10 ^ (e - 17).toNat : ℕ) < 2 * (s * (10 ^ (-(e - 17)).toNat : ℕ)) := by
    rw [← ten_zpow_mul, ← mul_assoc, ← mul_assoc]
    exact mul_lt_mul_of_pos_right hlt hq
  exact_mod_cast h

theorem two_pow_le {k places : ℕ} (h : k ≤ 3 * places) : 2 ^ k ≤ 10 ^ places := by
  calc 2 ^ k ≤ 2 ^ (3 * places) := Nat.pow_le_pow_right (by norm_num) h
    _ = 8 ^ places := Nat.pow_mul 2 3 places
    _ ≤ 10 ^ places := Nat.pow_le_pow_left (by norm_num) places

/-- The gap below a value is one quarter or two. -/
theorem low_ofBinary (b : Binary) : ∃ gap, 1 ≤ gap ∧ gap ≤ 2 ∧
    (Interval.ofBinary b).low = (4 * b.mantissa - gap) * 2 ^ b.exponent.toNat := by
  refine ⟨_, ?_, ?_, rfl⟩ <;> split <;> norm_num

theorem unit_le {places : ℕ} (hb : b.Bounded) (hm : b.mantissa ≠ 0) (hp : 1074 ≤ 3 * places) :
    (Interval.ofBinary b).unit ≤ (Interval.ofBinary b).value * 10 ^ places := by
  have hexp := hb.exponent
  have hv : 4 ≤ (Interval.ofBinary b).value :=
    le_trans (by omega) (Nat.le_mul_of_pos_right (4 * b.mantissa) (Nat.pow_pos (by norm_num)))
  exact Nat.mul_le_mul hv (two_pow_le (by omega))

/-- Seventeen digits always suffice. -/
theorem shortestDigits_contains (hb : b.Bounded) (hm : b.mantissa ≠ 0) :
    (Interval.ofBinary b).contains (shortestDigits b).1 (shortestDigits b).2 := by
  have hpow : ∀ k, 0 < 2 ^ k := fun k => Nat.pow_pos (by norm_num)
  have hs := hpow b.exponent.toNat
  have hu : 0 < (Interval.ofBinary b).unit := Nat.mul_pos (by norm_num) (hpow _)
  have hlow : (Interval.ofBinary b).low + 2 ^ b.exponent.toNat ≤ (Interval.ofBinary b).value := by
    obtain ⟨gap, hgap, -, hl⟩ := low_ofBinary b
    rw [hl, ← Nat.succ_mul]
    exact Nat.mul_le_mul_right _ (by omega)
  have hhigh : (Interval.ofBinary b).value + 2 * 2 ^ b.exponent.toNat ≤
      (Interval.ofBinary b).high := (Nat.add_mul _ _ _).ge
  have hsmall : (Interval.ofBinary b).unit ≤ (Interval.ofBinary b).value * 10 ^ smallestPlaces :=
    unit_le hb hm (by decide)
  have hfirst := firstDigit_le hu hsmall
  rw [← leadingExponent_eq] at hfirst
  exact search_contains 17 _
    (onGrid?_ne_none hu hlow hhigh (finest_grid hb.mantissa hs rfl hfirst))

theorem pos_of_contains (hm : b.mantissa ≠ 0) (h : (Interval.ofBinary b).contains n e) :
    0 < n := by
  obtain ⟨gap, -, hgap, hl⟩ := low_ofBinary b
  have hpos : 0 < (Interval.ofBinary b).low * 10 ^ (-e).toNat := by
    rw [hl]
    exact Nat.mul_pos (Nat.mul_pos (by omega) (Nat.pow_pos (by norm_num)))
      (Nat.pow_pos (by norm_num))
  by_contra hn
  obtain rfl := Nat.eq_zero_of_not_pos hn
  simp only [Interval.contains, Nat.pow_eq, Nat.zero_mul] at h
  generalize (Interval.ofBinary b).low * 10 ^ (-e).toNat = low at hpos h
  split at h <;> simp at h
  all_goals omega

/-- Zeros at the end move from the digits to the exponent. -/
theorem withoutTrailingZeros_value (fuel : ℕ) (n : ℕ) (e : ℤ) :
    ((withoutTrailingZeros fuel n e).1 : ℚ) * 10 ^ (withoutTrailingZeros fuel n e).2 =
      n * 10 ^ e := by
  induction fuel generalizing n e with
  | zero => rfl
  | succ fuel ih =>
    rw [withoutTrailingZeros]
    split
    · rename_i h
      obtain ⟨k, hk⟩ := Nat.dvd_of_mod_eq_zero h.2
      rw [ih, hk, Nat.mul_div_cancel_left k (by norm_num), zpow_add_one₀ (by norm_num)]
      push_cast
      ring
    · rfl

theorem withoutTrailingZeros_pos (fuel : ℕ) (e : ℤ) (hn : 0 < n) :
    0 < (withoutTrailingZeros fuel n e).1 := by
  induction fuel generalizing n e with
  | zero => exact hn
  | succ fuel ih =>
    rw [withoutTrailingZeros]
    split
    · exact ih (e + 1) (by omega)
    · exact hn

end QueueBench.Number
