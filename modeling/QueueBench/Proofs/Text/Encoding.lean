import QueueBench.Proofs.Text.Utf8

/-! # Bytes that stand for text

A byte sequence decodes to a text exactly when it is what the text is written as. A sequence
that does not decode is thus no text at all, whichever rule it breaks. -/
namespace QueueBench.Text

section Characters

variable {a b c d : UInt8}

theorem toNat_ofNat {n : ℕ} (h : n < 0xD800 ∨ 0xDFFF < n ∧ n < 0x110000) :
    (Char.ofNat n).val.toNat = n := by
  have hv : n.isValidChar := h
  rw [Char.ofNat, dif_pos hv]
  rfl

theorem utf8EncodeChar_one (h : a < 0x80) : String.utf8EncodeChar (scalar a 0 []) = [a] := by
  have ha : a.toNat < 128 := UInt8.lt_iff_toNat_lt.mp h
  have hn : (scalar a 0 []).val.toNat = a.toNat := toNat_ofNat (Or.inl (by simp; omega))
  unfold String.utf8EncodeChar
  simp only [hn]
  rw [if_pos (by omega), UInt8.ofNat_toNat]

theorem utf8EncodeChar_two (h : isPair a b) :
    String.utf8EncodeChar (scalar a 0xC0 [b]) = [a, b] := by
  simp only [isPair, isTail, Bool.and_eq_true, decide_eq_true_eq, UInt8.le_iff_toNat_le] at h
  simp at h
  have hn : (scalar a 0xC0 [b]).val.toNat = (a.toNat - 0xC0) * 64 + (b.toNat - 0x80) :=
    toNat_ofNat (by simp; omega)
  unfold String.utf8EncodeChar
  simp only [hn]
  rw [if_neg (by omega), if_pos (by omega)]
  simp only [List.cons.injEq, ← UInt8.toNat_inj, UInt8.toNat_ofNat', and_true]
  omega

theorem utf8EncodeChar_three (h : isTriple a b c) :
    String.utf8EncodeChar (scalar a 0xE0 [b, c]) = [a, b, c] := by
  simp only [isTriple, isTail, Bool.and_eq_true, Bool.or_eq_true, decide_eq_true_eq, beq_iff_eq,
    UInt8.le_iff_toNat_le, ← UInt8.toNat_inj] at h
  simp at h
  have hn : (scalar a 0xE0 [b, c]).val.toNat =
      ((a.toNat - 0xE0) * 64 + (b.toNat - 0x80)) * 64 + (c.toNat - 0x80) :=
    toNat_ofNat (by simp; omega)
  unfold String.utf8EncodeChar
  simp only [hn]
  rw [if_neg (by omega), if_neg (by omega), if_pos (by omega)]
  simp only [List.cons.injEq, ← UInt8.toNat_inj, UInt8.toNat_ofNat', and_true]
  omega

theorem utf8EncodeChar_four (h : isQuadruple a b c d) :
    String.utf8EncodeChar (scalar a 0xF0 [b, c, d]) = [a, b, c, d] := by
  simp only [isQuadruple, isTail, Bool.and_eq_true, Bool.or_eq_true, decide_eq_true_eq, beq_iff_eq,
    UInt8.le_iff_toNat_le, ← UInt8.toNat_inj] at h
  simp at h
  have hn : (scalar a 0xF0 [b, c, d]).val.toNat =
      (((a.toNat - 0xF0) * 64 + (b.toNat - 0x80)) * 64 + (c.toNat - 0x80)) * 64 +
        (d.toNat - 0x80) :=
    toNat_ofNat (by simp; omega)
  unfold String.utf8EncodeChar
  simp only [hn]
  rw [if_neg (by omega), if_neg (by omega), if_neg (by omega)]
  simp only [List.cons.injEq, ← UInt8.toNat_inj, UInt8.toNat_ofNat', and_true]
  omega

end Characters

theorem eq_flatMap_of_decodes {bs : List UInt8} {cs : List Char} (h : Decodes bs cs) :
    bs = cs.flatMap String.utf8EncodeChar := by
  induction h with
  | nil => rfl
  | one ha _ ih =>
    rw [List.flatMap_cons, utf8EncodeChar_one ha, ← ih]
    rfl
  | two hp _ ih =>
    rw [List.flatMap_cons, utf8EncodeChar_two hp, ← ih]
    rfl
  | three ht _ ih =>
    rw [List.flatMap_cons, utf8EncodeChar_three ht, ← ih]
    rfl
  | four hq _ ih =>
    rw [List.flatMap_cons, utf8EncodeChar_four hq, ← ih]
    rfl

/-- The bytes of a character fall into one of the four forms, by the size of its code point. -/
theorem decodes_utf8EncodeChar (c : Char) {bs : List UInt8} {cs : List Char}
    (h : Decodes bs cs) : Decodes (String.utf8EncodeChar c ++ bs) (c :: cs) := by
  have hv : c.val.toNat < 0xD800 ∨ 0xDFFF < c.val.toNat ∧ c.val.toNat < 0x110000 := c.valid
  have hc : Char.ofNat c.val.toNat = c := Char.ofNat_toNat c
  unfold String.utf8EncodeChar
  generalize c.val.toNat = n at hv hc
  rw [← hc]
  dsimp only
  split
  · have hs : scalar (UInt8.ofNat n) 0 [] = Char.ofNat n :=
      congrArg Char.ofNat (by simp; omega)
    rw [← hs]
    refine .one ?_ h
    rw [UInt8.lt_iff_toNat_lt]
    simp
    omega
  split
  · have hs : scalar (UInt8.ofNat (n / 64 % 32 + 192)) 0xC0 [UInt8.ofNat (n % 64 + 128)] =
        Char.ofNat n :=
      congrArg Char.ofNat (by simp; omega)
    rw [← hs]
    refine .two ?_ h
    simp only [isPair, isTail, Bool.and_eq_true, decide_eq_true_eq, UInt8.le_iff_toNat_le]
    simp
    omega
  split
  · have hs : scalar (UInt8.ofNat (n / 4096 % 16 + 224)) 0xE0
        [UInt8.ofNat (n / 64 % 64 + 128), UInt8.ofNat (n % 64 + 128)] = Char.ofNat n :=
      congrArg Char.ofNat (by simp; omega)
    rw [← hs]
    refine .three ?_ h
    simp only [isTriple, isTail, Bool.and_eq_true, Bool.or_eq_true, decide_eq_true_eq, beq_iff_eq,
      UInt8.le_iff_toNat_le, ← UInt8.toNat_inj]
    simp
    omega
  · have hs : scalar (UInt8.ofNat (n / 262144 % 8 + 240)) 0xF0
        [UInt8.ofNat (n / 4096 % 64 + 128), UInt8.ofNat (n / 64 % 64 + 128),
          UInt8.ofNat (n % 64 + 128)] = Char.ofNat n :=
      congrArg Char.ofNat (by simp; omega)
    rw [← hs]
    refine .four ?_ h
    simp only [isQuadruple, isTail, Bool.and_eq_true, Bool.or_eq_true, decide_eq_true_eq,
      beq_iff_eq, UInt8.le_iff_toNat_le, ← UInt8.toNat_inj]
    simp
    omega

theorem decodes_iff {bs : List UInt8} {cs : List Char} :
    Decodes bs cs ↔ bs = cs.flatMap String.utf8EncodeChar := by
  refine ⟨eq_flatMap_of_decodes, ?_⟩
  rintro rfl
  induction cs with
  | nil => exact .nil
  | cons c cs ih => exact decodes_utf8EncodeChar c ih

theorem encode_eq_flatMap (s : String) : encode s = s.toList.flatMap String.utf8EncodeChar := by
  have hb : (String.ofList s.toList).toByteArray =
      (s.toList.flatMap String.utf8EncodeChar).toByteArray := rfl
  rw [String.ofList_toList] at hb
  rw [encode, String.toUTF8_eq_toByteArray, hb, List.toList_data_toByteArray]

/-- Reading accepts exactly what writing produces. -/
theorem decode_eq_ok_iff {bs : List UInt8} {s : String} : decode bs = .ok s ↔ encode s = bs := by
  rw [encode_eq_flatMap]
  constructor
  · intro h
    obtain ⟨cs, hd, rfl⟩ := ok_of_map h
    rw [String.toList_ofList]
    exact (eq_flatMap_of_decodes (decodes_of_decodeAt hd)).symm
  · intro h
    rw [decode, decodeAt_of_decodes (decodes_iff.mpr h.symm)]
    exact congrArg Except.ok String.ofList_toList

end QueueBench.Text
