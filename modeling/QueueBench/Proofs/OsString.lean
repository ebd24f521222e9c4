import QueueBench.OsString
import QueueBench.Proofs.Text.Encoding

/-! # Texts among the strings of the operating system

A string that has a text is what this text is written as, and it is shown as this text. -/
namespace QueueBench

theorem Except.toOption_eq_some_iff {ε α : Type} {r : Except ε α} {a : α} :
    r.toOption = some a ↔ r = .ok a := by
  cases r with
  | error e => exact iff_of_false nofun nofun
  | ok b => rw [Except.toOption, Option.some_inj, Except.ok.injEq]

namespace Text

theorem pieces_of_decodes {bytes : List UInt8} {cs : List Char} (h : Decodes bytes cs) :
    pieces bytes = cs.map .char := by
  unfold pieces
  induction h with
  | nil => rfl
  | one ha _ ih => simp [piecesFrom, Piece.next, Piece.first, ha, ih]
  | two hp _ ih =>
    obtain ⟨ha, _⟩ := ascii_lt_of_isPair hp
    simp [piecesFrom, Piece.next, Piece.first, UInt8.not_lt.mpr ha, hp, ih]
  | @three a b c bs cs ht _ ih =>
    obtain ⟨ha, _⟩ := ascii_lt_of_isTriple ht
    have hl : ¬ a < 0x80 := UInt8.not_lt.mpr (UInt8.le_trans (by decide) ha)
    have hopen : isTriple a b 0x80 := by
      simp only [isTriple, Bool.and_eq_true] at ht ⊢
      exact ⟨ht.1, by decide⟩
    simp [piecesFrom, Piece.next, Piece.first, hl, not_isPair ha, hopen, ht, ih]
  | @four a b c d bs cs hq _ ih =>
    obtain ⟨ha, _⟩ := ascii_lt_of_isQuadruple hq
    have hl : ¬ a < 0x80 := UInt8.not_lt.mpr (UInt8.le_trans (by decide) ha)
    have he := UInt8.le_trans (show (0xE0 : UInt8) ≤ 0xF0 by decide) ha
    have hopen : isQuadruple a b c 0x80 ∧ isQuadruple a b 0x80 0x80 := by
      simp only [isQuadruple, Bool.and_eq_true] at hq ⊢
      exact ⟨⟨hq.1, by decide⟩, ⟨hq.1.1, by decide⟩, by decide⟩
    simp [piecesFrom, Piece.next, Piece.first, hl, not_isPair he, not_isTriple ha, hopen, hq, ih]

end Text

namespace OsString

variable {s : OsString} {u : String}

theorem text?_eq_some_iff : s.text? = some u ↔ s = ofText u := by
  rw [text?, Except.toOption_eq_some_iff, Text.decode_eq_ok_iff, ofText, OsString.ext_iff]
  exact eq_comm

@[simp]
theorem text?_ofText (u : String) : (ofText u).text? = some u := text?_eq_some_iff.mpr rfl

/-- Nothing of a text is lost when it is shown. -/
theorem display_ofText (u : String) : (ofText u).display = u := by
  have hpieces : Text.pieces (Text.encode u) = u.toList.map .char :=
    Text.pieces_of_decodes (Text.decodes_iff.mpr (Text.encode_eq_flatMap u))
  rw [display, ofText, hpieces, List.map_map]
  simp [Function.comp_def]

/-- Nothing of the string is lost when it is shown, as it is UTF-8. -/
def IsText (s : OsString) : Prop := ofText s.display = s

instance (s : OsString) : Decidable s.IsText := inferInstanceAs (Decidable (_ = _))

theorem isText_iff : s.IsText ↔ ∃ u, s = ofText u := by
  constructor
  · exact fun h => ⟨s.display, h.symm⟩
  · rintro ⟨u, rfl⟩
    exact congrArg ofText (display_ofText u)

section Order

/-- Distinct strings that are sorted stand in the strict order of their bytes. -/
theorem pairwise_mergeSort {names : List OsString} (hn : names.Nodup) :
    (names.mergeSort le).Pairwise fun a b => a.bytes < b.bytes := by
  have hsorted : (names.mergeSort le).Pairwise fun a b => le a b := by
    apply List.pairwise_mergeSort
    · intro a b c hab hbc
      exact decide_eq_true (List.le_trans (of_decide_eq_true hab) (of_decide_eq_true hbc))
    · intro a b
      simpa [le] using List.le_total a.bytes b.bytes
  have hdistinct := (List.mergeSort_perm names le).nodup_iff.mpr hn
  refine (hsorted.and hdistinct).imp fun ⟨hle, hne⟩ => ?_
  by_contra hlt
  exact hne (OsString.ext (List.le_antisymm (of_decide_eq_true hle) (List.not_lt.mp hlt)))

theorem nodup_of_pairwise {names : List OsString}
    (h : names.Pairwise fun a b => a.bytes < b.bytes) : names.Nodup := by
  refine h.imp fun hlt heq => ?_
  rw [heq] at hlt
  exact List.lt_irrefl _ hlt

end Order

end OsString

end QueueBench
