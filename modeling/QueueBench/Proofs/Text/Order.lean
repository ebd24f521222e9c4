import QueueBench.Proofs.Text.Encoding

/-! # The order of texts

Texts are compared character by character. UTF-8 keeps that order: comparing the bytes of two
texts gives the same answer, so either may be used to sort names. -/
namespace QueueBench.Text

theorem codePoint_lt (c : Char) : c.val.toNat < 0x110000 := by
  rcases c.valid with hv | hv
  · exact Nat.lt_trans hv (by decide)
  · exact hv.2

/-- The first byte in which two characters differ orders them as their code points do. -/
theorem utf8EncodeChar_lt {c d : Char} (h : c < d) (xs ys : List UInt8) :
    String.utf8EncodeChar c ++ xs < String.utf8EncodeChar d ++ ys := by
  have hlt : c.val.toNat < d.val.toNat := UInt32.lt_iff_toNat_lt.mp (Char.lt_def.mp h)
  have hd := codePoint_lt d
  unfold String.utf8EncodeChar
  generalize c.val.toNat = m at hlt
  generalize d.val.toNat = n at hlt hd
  have hbyte {k : ℕ} (hk : k < 256) : (UInt8.ofNat k).toNat = k := UInt8.toNat_ofNat_of_lt hk
  have hm8 : m / 262144 % 8 = m / 262144 := Nat.mod_eq_of_lt (by omega)
  have hn8 : n / 262144 % 8 = n / 262144 := Nat.mod_eq_of_lt (by omega)
  dsimp only
  -- A longer form begins with a greater byte, and within one form the code points decide.
  repeat' split
  all_goals
    simp (disch := omega) only [List.cons_append, List.nil_append, List.cons_lt_cons_iff,
      UInt8.lt_iff_toNat_lt, ← UInt8.toNat_inj, hbyte, hm8, hn8]
    omega

theorem flatMap_utf8EncodeChar_lt {cs ds : List Char} (h : cs < ds) :
    cs.flatMap String.utf8EncodeChar < ds.flatMap String.utf8EncodeChar := by
  induction h with
  | @nil d ds =>
    rw [List.flatMap_nil, List.flatMap_cons]
    cases hd : String.utf8EncodeChar d with
    | nil => simp at hd
    | cons a bs => exact List.nil_lt_cons _ _
  | rel hlt => exact utf8EncodeChar_lt hlt _ _
  | cons _ ih => exact List.append_left_lt ih

/-- Order of bytes and order of characters agree. -/
theorem encode_lt_iff {s t : String} : encode s < encode t ↔ s < t := by
  rw [encode_eq_flatMap, encode_eq_flatMap]
  constructor
  · intro h
    by_contra hst
    by_cases hts : t < s
    · exact List.lt_asymm h (flatMap_utf8EncodeChar_lt hts)
    · obtain rfl := String.le_antisymm (String.not_lt.mp hst) (String.not_lt.mp hts)
      exact List.lt_irrefl _ h
  · intro h
    exact flatMap_utf8EncodeChar_lt h

theorem encode_lt_of_le_of_ne {s t : String} (hle : s ≤ t) (hne : s ≠ t) : encode s < encode t := by
  rw [encode_lt_iff]
  by_contra h
  exact hne (String.le_antisymm hle (String.not_lt.mp h))

/-- Distinct texts that are sorted stand in the strict order of their bytes. -/
theorem pairwise_encode_mergeSort {texts : List String} (hn : texts.Nodup) :
    (texts.mergeSort fun a b => decide (a ≤ b)).Pairwise fun a b => encode a < encode b := by
  have hsorted :
      (texts.mergeSort fun a b => decide (a ≤ b)).Pairwise fun a b => decide (a ≤ b) := by
    apply List.pairwise_mergeSort
    · intro a b c
      simpa using String.le_trans
    · intro a b
      simpa using String.le_total a b
  have hdistinct := (List.mergeSort_perm texts fun a b => decide (a ≤ b)).nodup_iff.mpr hn
  exact (hsorted.and hdistinct).imp fun ⟨hle, hne⟩ =>
    encode_lt_of_le_of_ne (of_decide_eq_true hle) hne

end QueueBench.Text
