import QueueBench.Proofs.Json.Scalar
import QueueBench.Proofs.Number.Shortest

/-! # Numbers as texts of JSON

The text of a count is a number of JSON, and so is the shortest text of every float: the decimal
number whose digits it shows. -/
namespace QueueBench

namespace Json

open Number (Digits shortestText)
open Number.Numeral (ExponentText)

variable {cs ds es fs : List Char} {n : ℕ} {q q' : ℚ} {e : ℤ}

theorem head_toDigits (hn : 0 < n) : (Nat.toDigits 10 n).head? ≠ some '0' := by
  induction n using Nat.strong_induction_on with
  | _ n ih =>
    by_cases h : n < 10
    · rw [Nat.toDigits_of_lt_base h]
      intro hc
      have hv := Nat.toNat_digitChar_of_lt_ten h
      rw [Option.some.inj hc] at hv
      change 48 = 48 + n at hv
      omega
    · have hle := Nat.le_of_not_lt h
      rw [Nat.toDigits_of_base_le (by norm_num) hle,
        List.head?_append_of_ne_nil _ Nat.toDigits_ne_nil]
      exact ih (n / 10) (Nat.div_lt_self hn (by norm_num)) (Nat.div_pos hle (by norm_num))

theorem digits_toDigits (n : ℕ) : Digits (Nat.toDigits 10 n) :=
  ⟨Nat.toDigits_ne_nil, fun _ hc => Nat.isDigit_of_mem_toDigits (by norm_num) le_rfl hc⟩

theorem whole_toDigits (n : ℕ) : Whole (Nat.toDigits 10 n) where
  toDigits := digits_toDigits n
  lead h := by
    rcases Nat.eq_zero_or_pos n with rfl | hn
    · exact Nat.toDigits_zero 10
    · exact (head_toDigits hn h).elim

theorem numberText_toString (n : ℕ) : NumberText (toString n).toList n := by
  have h := NumberText.bare (.whole (whole_toDigits n) .absent)
  rw [Nat.ofDigitChars_ten_toDigits, zpow_zero, mul_one, List.append_nil] at h
  rwa [Nat.toString_eq_ofList_toDigits, String.toList_ofList]

/-- Digits that start as those of a positive number do. -/
theorem whole_of_head (hn : 0 < n) (hd : Digits ds)
    (hh : ds.head? = (Nat.toDigits 10 n).head?) : Whole ds where
  toDigits := hd
  lead h := (head_toDigits hn (hh.symm.trans h)).elim

theorem isDigit_of_mem_zeros {k : ℕ} : ∀ c ∈ List.replicate k '0', c.isDigit := by
  intro c hc
  rw [List.eq_of_mem_replicate hc]
  rfl

theorem digits_zero : Digits ['0'] := ⟨nofun, List.forall_mem_singleton.mpr rfl⟩

/-- The value of a text with a point, by the number that all its digits make. -/
theorem unsigned_of_digits {p : ℤ} (hw : Whole ds) (hf : Digits fs) (he : ExponentText es p)
    (hn : Nat.ofDigitChars 10 (ds ++ fs) 0 = n) (hp : p - fs.length = e) :
    Unsigned (ds ++ '.' :: (fs ++ es)) (n * 10 ^ e) := by
  subst hn hp
  exact .pointed hw hf he

/-- A whole number with zeros behind its digits. -/
theorem unsigned_zeros (hn : 0 < n) (k : ℕ) :
    Unsigned (Nat.toDigits 10 n ++ List.replicate k '0' ++ ['.', '0']) (n * 10 ^ (k : ℤ)) := by
  have hw : Whole (Nat.toDigits 10 n ++ List.replicate k '0') := by
    refine whole_of_head hn ((digits_toDigits n).append isDigit_of_mem_zeros) ?_
    rw [List.head?_append_of_ne_nil _ Nat.toDigits_ne_nil]
  have hv : Nat.ofDigitChars 10 (Nat.toDigits 10 n ++ List.replicate k '0' ++ ['0']) 0 =
      10 * (10 ^ k * n) := by
    rw [Nat.ofDigitChars_append, Nat.ofDigitChars_append,
      Nat.ofDigitChars_ten_toDigits, Nat.ofDigitChars_replicate_zero,
      Nat.ofDigitChars_cons, Nat.ofDigitChars_nil, Nat.sub_self, Nat.add_zero]
  have hu := unsigned_of_digits hw digits_zero .absent hv rfl
  have hq : ((10 * (10 ^ k * n) : ℕ) : ℚ) * 10 ^ ((0 : ℤ) - ['0'].length) = n * 10 ^ (k : ℤ) := by
    have hone : (10 : ℚ) ^ ((0 : ℤ) - ['0'].length) = 10⁻¹ := by norm_num
    rw [hone, zpow_natCast]
    push_cast
    ring
  rwa [hq] at hu

/-- A point among the digits. -/
theorem unsigned_within (hn : 0 < n) {k : ℕ} (hk : 0 < k) (hl : k < (Nat.toDigits 10 n).length) :
    Unsigned ((Nat.toDigits 10 n).take k ++ '.' :: (Nat.toDigits 10 n).drop k)
      (n * 10 ^ ((k : ℤ) - (Nat.toDigits 10 n).length)) := by
  have hd := (digits_toDigits n).isDigit
  have hw : Whole ((Nat.toDigits 10 n).take k) := by
    refine whole_of_head hn ⟨?_, fun c hc => hd c (List.mem_of_mem_take hc)⟩ ?_
    · apply List.ne_nil_of_length_pos
      rw [List.length_take]
      omega
    · rw [List.head?_take, if_neg hk.ne']
  have hf : Digits ((Nat.toDigits 10 n).drop k) := by
    refine ⟨?_, fun c hc => hd c (List.mem_of_mem_drop hc)⟩
    rw [ne_eq, List.drop_eq_nil_iff]
    omega
  have hv :
      Nat.ofDigitChars 10 ((Nat.toDigits 10 n).take k ++ (Nat.toDigits 10 n).drop k) 0 = n := by
    rw [List.take_append_drop, Nat.ofDigitChars_ten_toDigits]
  have hu := unsigned_of_digits hw hf .absent hv rfl
  rw [List.append_nil] at hu
  have hp : (0 : ℤ) - ((Nat.toDigits 10 n).drop k).length =
      (k : ℤ) - (Nat.toDigits 10 n).length := by
    rw [List.length_drop]
    omega
  rwa [hp] at hu

/-- Zeros between the point and the digits. -/
theorem unsigned_below (n k : ℕ) :
    Unsigned ('0' :: '.' :: List.replicate k '0' ++ Nat.toDigits 10 n)
      (n * 10 ^ (-(k + (Nat.toDigits 10 n).length : ℤ))) := by
  have hw : Whole ['0'] := ⟨digits_zero, fun _ => rfl⟩
  have hf : Digits (List.replicate k '0' ++ Nat.toDigits 10 n) :=
    ⟨List.append_ne_nil_of_right_ne_nil _ Nat.toDigits_ne_nil, fun c hc =>
      (List.mem_append.mp hc).elim (isDigit_of_mem_zeros c) ((digits_toDigits n).isDigit c)⟩
  have hv : Nat.ofDigitChars 10 (['0'] ++ (List.replicate k '0' ++ Nat.toDigits 10 n)) 0 = n := by
    rw [Nat.ofDigitChars_append, Nat.ofDigitChars_append, Nat.ofDigitChars_cons,
      Nat.ofDigitChars_nil, Nat.ofDigitChars_replicate_zero, Nat.sub_self, Nat.mul_zero,
      Nat.ofDigitChars_ten_toDigits]
  have hu := unsigned_of_digits hw hf .absent hv rfl
  rw [List.append_nil] at hu
  have hp : (0 : ℤ) - (List.replicate k '0' ++ Nat.toDigits 10 n).length =
      -(k + (Nat.toDigits 10 n).length : ℤ) := by
    rw [List.length_append, List.length_replicate]
    omega
  rwa [hp] at hu

/-- One digit, the others behind a point, and an exponent. -/
theorem unsigned_scientific (hn : 0 < n) {p : ℤ} (he : ExponentText es p) :
    Unsigned (match Nat.toDigits 10 n with
      | [d] => d :: es
      | d :: rest => d :: '.' :: rest ++ es
      | [] => []) (n * 10 ^ (p + 1 - (Nat.toDigits 10 n).length)) := by
  have hv := Nat.ofDigitChars_ten_toDigits (n := n)
  have hw := whole_toDigits n
  have hh := head_toDigits hn
  generalize Nat.toDigits 10 n = ds at hv hw hh ⊢
  match ds with
  | [] => exact (hw.ne_nil rfl).elim
  | [d] =>
    have hu := Unsigned.whole hw he
    have hp : p + 1 - ([d].length : ℤ) = p := Int.add_sub_cancel p 1
    rw [hv] at hu
    rwa [hp]
  | d :: d' :: rest =>
    have hd := hw.isDigit
    have hf : Digits (d' :: rest) := ⟨nofun, fun c hc => hd c (List.mem_cons_of_mem _ hc)⟩
    have hw' : Whole [d] := by
      refine ⟨⟨nofun, fun c hc => hd c ?_⟩, fun h => (hh h).elim⟩
      rw [List.mem_singleton.mp hc]
      exact List.mem_cons_self
    refine unsigned_of_digits hw' hf he hv ?_
    simp only [List.length_cons]
    omega

/-- The mark of an exponent with its sign. -/
theorem exponentText_mark (p : ℤ) :
    ExponentText (if p < 0 then s!"e{p}" else s!"e+{p}").toList p := by
  have hmark : 'e' = 'e' ∨ 'e' = 'E' := Or.inl rfl
  split
  · rename_i h
    obtain ⟨k, rfl⟩ := Int.eq_negSucc_of_lt_zero h
    have ht : (toString (Int.negSucc k)).toList = '-' :: Nat.toDigits 10 (k + 1) := by
      simp [Int.toString_eq_repr, Int.repr, Nat.toList_repr]
    have he := ExponentText.minus hmark (digits_toDigits (k + 1))
    rw [Nat.ofDigitChars_ten_toDigits, ← ht] at he
    rw [String.toList_append]
    exact he
  · rename_i h
    obtain ⟨k, rfl⟩ := Int.eq_ofNat_of_zero_le (Int.not_lt.mp h)
    have ht : (toString (k : ℤ)).toList = Nat.toDigits 10 k := by
      simp [Int.toString_eq_repr, Int.repr, Nat.toList_repr]
    have he := ExponentText.plus hmark (digits_toDigits k)
    rw [Nat.ofDigitChars_ten_toDigits, ← ht] at he
    rw [String.toList_append]
    exact he

/-- The text shows the digits with a point behind, among or before them, or with an exponent. -/
theorem unsigned_shortestText (hn : 0 < n) (e : ℤ) : Unsigned (shortestText n e) (n * 10 ^ e) := by
  have hlen : 0 < (Nat.toDigits 10 n).length := Nat.length_toDigits_pos
  unfold shortestText
  dsimp only
  by_cases h₁ : 0 ≤ e ∧ ((Nat.toDigits 10 n).length : ℤ) + e ≤ 16
  · rw [if_pos h₁]
    have hu := unsigned_zeros hn e.toNat
    rwa [Int.toNat_of_nonneg h₁.1] at hu
  rw [if_neg h₁]
  by_cases h₂ : 0 < ((Nat.toDigits 10 n).length : ℤ) + e ∧ ((Nat.toDigits 10 n).length : ℤ) + e ≤ 16
  · rw [if_pos h₂]
    have hu := unsigned_within hn (k := (((Nat.toDigits 10 n).length : ℤ) + e).toNat)
      (by omega) (by omega)
    rwa [Int.toNat_of_nonneg h₂.1.le, add_sub_cancel_left] at hu
  rw [if_neg h₂]
  by_cases h₃ : -5 < ((Nat.toDigits 10 n).length : ℤ) + e ∧ ((Nat.toDigits 10 n).length : ℤ) + e ≤ 0
  · rw [if_pos h₃]
    have hu := unsigned_below n (-(((Nat.toDigits 10 n).length : ℤ) + e)).toNat
    rw [Int.toNat_of_nonneg (by omega)] at hu
    have hp : -(-(((Nat.toDigits 10 n).length : ℤ) + e) + (Nat.toDigits 10 n).length) = e := by
      omega
    rwa [hp] at hu
  rw [if_neg h₃]
  have hp : ((Nat.toDigits 10 n).length : ℤ) + e - 1 + 1 - (Nat.toDigits 10 n).length = e := by
    omega
  have hu := unsigned_scientific hn (exponentText_mark (((Nat.toDigits 10 n).length : ℤ) + e - 1))
  rwa [hp] at hu

end Json

namespace Number

open Json

/-- The decimal number that the shortest text of a finite float shows. -/
def decimal (x : Float) : ℚ :=
  let b := Binary.ofFloat x
  let (n, e) := if b.mantissa = 0 then (0, 0) else shortestDigits b
  if b.negative then -(n * 10 ^ e) else n * 10 ^ e

theorem numberText_sign {b : Binary} {text : String} {q : ℚ} (h : Unsigned text.toList q) :
    NumberText (sign b ++ text).toList (if b.negative then -q else q) := by
  unfold sign
  rw [String.toList_append]
  split
  · exact .minus h
  · exact .bare h

/-- The shortest text of a float is a number of JSON. -/
theorem numberText_shortest (x : Float) : NumberText (shortest x).toList (decimal x) := by
  have hb := bounded_ofFloat x
  unfold shortest decimal
  generalize Binary.ofFloat x = b at hb
  dsimp only
  split
  · have hw : Whole ['0'] := ⟨digits_zero, fun _ => rfl⟩
    have hu := unsigned_of_digits (n := 0) (e := -1) hw digits_zero .absent rfl rfl
    refine numberText_sign ?_
    simpa using hu
  · rename_i hm
    have hn := pos_of_contains hm (shortestDigits_contains hb hm)
    refine numberText_sign ?_
    rw [String.toList_ofList, ← withoutTrailingZeros_value 20]
    exact unsigned_shortestText (withoutTrailingZeros_pos 20 _ hn) _

end Number

end QueueBench
