import Mathlib.Data.List.TakeWhile
import QueueBench.Text.Blank
import QueueBench.Text.Utf8

/-! # Cutting UTF-8 text

Every byte of a character outside ASCII is above ASCII. Text can therefore be cut at any byte
of ASCII, and the parts are text again. -/
namespace QueueBench.Text

inductive Decodes : List UInt8 → List Char → Prop where
  | nil : Decodes [] []
  | one {a bs cs} : a < 0x80 → Decodes bs cs → Decodes (a :: bs) (scalar a 0 [] :: cs)
  | two {a b bs cs} : isPair a b → Decodes bs cs →
      Decodes (a :: b :: bs) (scalar a 0xC0 [b] :: cs)
  | three {a b c bs cs} : isTriple a b c → Decodes bs cs →
      Decodes (a :: b :: c :: bs) (scalar a 0xE0 [b, c] :: cs)
  | four {a b c d bs cs} : isQuadruple a b c d → Decodes bs cs →
      Decodes (a :: b :: c :: d :: bs) (scalar a 0xF0 [b, c, d] :: cs)

theorem ascii_lt_of_isPair {a b : UInt8} (h : isPair a b) : 0x80 ≤ a ∧ 0x80 ≤ b := by
  simp only [isPair, isTail, Bool.and_eq_true, decide_eq_true_eq, UInt8.le_iff_toNat_le] at h ⊢
  simp at h ⊢
  omega

theorem ascii_lt_of_isTriple {a b c : UInt8} (h : isTriple a b c) :
    0xE0 ≤ a ∧ 0x80 ≤ b ∧ 0x80 ≤ c := by
  simp only [isTriple, isTail, Bool.and_eq_true, Bool.or_eq_true, decide_eq_true_eq, beq_iff_eq,
    UInt8.le_iff_toNat_le, ← UInt8.toNat_inj] at h ⊢
  simp at h ⊢
  omega

theorem ascii_lt_of_isQuadruple {a b c d : UInt8} (h : isQuadruple a b c d) :
    0xF0 ≤ a ∧ 0x80 ≤ b ∧ 0x80 ≤ c ∧ 0x80 ≤ d := by
  simp only [isQuadruple, isTail, Bool.and_eq_true, Bool.or_eq_true, decide_eq_true_eq, beq_iff_eq,
    UInt8.le_iff_toNat_le, ← UInt8.toNat_inj] at h ⊢
  simp at h ⊢
  omega

theorem not_isPair {a b : UInt8} (h : 0xE0 ≤ a) : isPair a b = false := by
  rw [← Bool.not_eq_true]
  intro hp
  simp only [isPair, Bool.and_eq_true, decide_eq_true_eq] at hp
  have hc := UInt8.le_trans h hp.1.2
  revert hc
  decide

theorem not_isTriple {a b c : UInt8} (h : 0xF0 ≤ a) : isTriple a b c = false := by
  rw [← Bool.not_eq_true]
  intro ht
  simp only [isTriple, isTail, Bool.and_eq_true, Bool.or_eq_true, decide_eq_true_eq, beq_iff_eq,
    UInt8.le_iff_toNat_le, ← UInt8.toNat_inj] at h ht
  simp at h ht
  omega

theorem ok_of_map {ε α β : Type} {f : α → β} {e : Except ε α} {b : β}
    (h : e.map f = .ok b) : ∃ a, e = .ok a ∧ f a = b := by
  rcases e with e | a
  · cases h
  · exact ⟨a, rfl, Except.ok.inj h⟩

theorem decodes_of_decodeAt {i : ℕ} {bs : List UInt8} {cs : List Char}
    (h : decodeAt i bs = .ok cs) : Decodes bs cs := by
  fun_induction decodeAt i bs generalizing cs
  case case1 =>
    cases h
    exact .nil
  case case2 ha ih =>
    obtain ⟨_, hr, rfl⟩ := ok_of_map h
    exact .one ha (ih hr)
  case case4 hp ih =>
    obtain ⟨_, hr, rfl⟩ := ok_of_map h
    exact .two hp (ih hr)
  case case6 ht ih =>
    obtain ⟨_, hr, rfl⟩ := ok_of_map h
    exact .three ht (ih hr)
  case case8 hq ih =>
    obtain ⟨_, hr, rfl⟩ := ok_of_map h
    exact .four hq (ih hr)
  all_goals cases h

theorem decodeAt_of_decodes {i : ℕ} {bs : List UInt8} {cs : List Char} (h : Decodes bs cs) :
    decodeAt i bs = .ok cs := by
  induction h generalizing i with
  | nil => rfl
  | one ha _ ih =>
    unfold decodeAt
    rw [if_pos ha, ih]
    rfl
  | two hp _ ih =>
    obtain ⟨ha, _⟩ := ascii_lt_of_isPair hp
    unfold decodeAt
    simp only [UInt8.not_lt.mpr ha, hp, ↓reduceIte, ih]
    rfl
  | three ht _ ih =>
    obtain ⟨ha, _⟩ := ascii_lt_of_isTriple ht
    have hl : ¬ _ < (0x80 : UInt8) := UInt8.not_lt.mpr (UInt8.le_trans (by decide) ha)
    unfold decodeAt
    simp only [hl, not_isPair ha, ht, Bool.false_eq_true, ↓reduceIte, ih]
    rfl
  | four hq _ ih =>
    obtain ⟨ha, _⟩ := ascii_lt_of_isQuadruple hq
    have hl : ¬ _ < (0x80 : UInt8) := UInt8.not_lt.mpr (UInt8.le_trans (by decide) ha)
    have he := UInt8.le_trans (show (0xE0 : UInt8) ≤ 0xF0 by decide) ha
    unfold decodeAt
    simp only [hl, not_isPair he, not_isTriple ha, hq, Bool.false_eq_true, ↓reduceIte, ih]
    rfl

/-- A character outside ASCII stands on one side of a byte of ASCII. -/
theorem exists_rest {bytes rest xs ys : List UInt8} {b : UInt8} (hc : ∀ a ∈ bytes, 0x80 ≤ a)
    (hb : b < 0x80) (h : xs ++ b :: ys = bytes ++ rest) :
    ∃ zs, xs = bytes ++ zs ∧ zs ++ b :: ys = rest := by
  rcases List.append_eq_append_iff.mp h with ⟨zs, hx, hr⟩ | ⟨zs, hx, hr⟩
  · rcases zs with _ | ⟨z, zs⟩
    · exact ⟨[], by simpa using hx.symm, by simpa using hr⟩
    · obtain ⟨rfl, _⟩ := List.cons.inj hr
      have hm := hc b (by rw [hx]; simp)
      exact (UInt8.not_lt.mpr hm hb).elim
  · exact ⟨zs, hx, hr.symm⟩

/-- A byte of ASCII is a character of its own wherever it stands. -/
theorem Decodes.cut {xs ys : List UInt8} {b : UInt8} {cs : List Char} (hb : b < 0x80)
    (h : Decodes (xs ++ b :: ys) cs) :
    ∃ us vs, cs = us ++ scalar b 0 [] :: vs ∧ Decodes xs us ∧ Decodes ys vs := by
  generalize hz : xs ++ b :: ys = zs at h
  induction h generalizing xs with
  | nil => simp at hz
  | one ha h ih =>
    rcases xs with _ | ⟨x, xs⟩
    · obtain ⟨rfl, rfl⟩ := List.cons.inj hz
      exact ⟨[], _, rfl, .nil, h⟩
    · obtain ⟨rfl, ht⟩ := List.cons.inj hz
      obtain ⟨us, vs, rfl, hx, hy⟩ := ih ht
      exact ⟨_ :: us, vs, rfl, .one ha hx, hy⟩
  | @two a₁ a₂ bs cs hp h ih =>
    obtain ⟨zs, rfl, hr⟩ := exists_rest (by simpa using ascii_lt_of_isPair hp) hb
      (show xs ++ b :: ys = [a₁, a₂] ++ bs from hz)
    obtain ⟨us, vs, rfl, hx, hy⟩ := ih hr
    exact ⟨_ :: us, vs, rfl, .two hp hx, hy⟩
  | @three a₁ a₂ a₃ bs cs ht h ih =>
    obtain ⟨h₁, h₂, h₃⟩ := ascii_lt_of_isTriple ht
    have h₁ := UInt8.le_trans (show (0x80 : UInt8) ≤ 0xE0 by decide) h₁
    obtain ⟨zs, rfl, hr⟩ := exists_rest (by simp [h₁, h₂, h₃]) hb
      (show xs ++ b :: ys = [a₁, a₂, a₃] ++ bs from hz)
    obtain ⟨us, vs, rfl, hx, hy⟩ := ih hr
    exact ⟨_ :: us, vs, rfl, .three ht hx, hy⟩
  | @four a₁ a₂ a₃ a₄ bs cs hq h ih =>
    obtain ⟨h₁, h₂, h₃, h₄⟩ := ascii_lt_of_isQuadruple hq
    have h₁ := UInt8.le_trans (show (0x80 : UInt8) ≤ 0xF0 by decide) h₁
    obtain ⟨zs, rfl, hr⟩ := exists_rest (by simp [h₁, h₂, h₃, h₄]) hb
      (show xs ++ b :: ys = [a₁, a₂, a₃, a₄] ++ bs from hz)
    obtain ⟨us, vs, rfl, hx, hy⟩ := ih hr
    exact ⟨_ :: us, vs, rfl, .four hq hx, hy⟩

end QueueBench.Text
