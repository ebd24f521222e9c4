import QueueBench.Proofs.Acceptance
import QueueBench.Proofs.Number.Sign

/-! # Sign errors

Which cells are reported for their sign. A cell that cannot be read is, when a minus sign stands in
it before the text of a number. That number may have a sign of its own, and in a column of counts
it may be zero or none at all: then the cell is reported for a sign and holds no number below
zero. -/
namespace QueueBench

open Number
open Numeral (Signed)

/-- The text is a minus sign and then that of a number, which may have a sign of its own. -/
structure MinusBefore (t : String) (rest : List Char) (y : Numeral) : Prop where
  minus : t.toList = '-' :: rest
  number : Numeral.Text rest y

def SpellsBelowZero (t : String) : Prop := ∃ x, Numeral.Text t.toList x ∧ x.neg.Positive

def GarbledMinus (t : String) : Prop :=
  (∃ rest, t.toList = '-' :: rest) ∧ ∀ x, ¬ Numeral.Text t.toList x

variable {t : String} {rest : List Char} {x y : Numeral} {n : ℕ}

theorem not_spellsCount_of_minus (h : t.toList = '-' :: rest) : ¬ SpellsCount t n := by
  rintro ⟨ds, hds | hds, hd, -⟩
  · exact hd.ne_cons rfl rest (hds.symm.trans h)
  · exact absurd (List.cons.inj (hds.symm.trans h)).1 (by decide)

/-- A sign is part of a number only in front of it. -/
theorem text_minus_iff :
    Numeral.Text ('-' :: rest) x ↔ ¬ Signed rest ∧ Numeral.Text rest x.neg := by
  constructor
  · intro h
    have hm := h.of_minus
    exact ⟨hm.not_signed, .bare hm.neg⟩
  · rintro ⟨hs, h⟩
    have hm := (h.of_not_signed hs).neg
    rw [Numeral.neg_neg] at hm
    exact .minus hm

namespace MinusBefore

variable (h : MinusBefore t rest y)
include h

theorem spells_iff : Numeral.Text t.toList x ↔ ¬ Signed rest ∧ x.neg = y := by
  rw [h.minus, text_minus_iff]
  refine and_congr_right fun _ => ⟨fun hx => hx.unique h.number, ?_⟩
  rintro rfl
  exact h.number

theorem spellsBelowZero_iff : SpellsBelowZero t ↔ ¬ Signed rest ∧ y.Positive := by
  unfold SpellsBelowZero
  constructor
  · rintro ⟨x, hx, hp⟩
    obtain ⟨hs, rfl⟩ := h.spells_iff.mp hx
    exact ⟨hs, hp⟩
  · rintro ⟨hs, hp⟩
    refine ⟨y.neg, h.spells_iff.mpr ⟨hs, y.neg_neg⟩, ?_⟩
    rwa [Numeral.neg_neg]

end MinusBefore

namespace Column

def Kind.IsNumeric : Kind → Prop
  | text | mode => False
  | count _ _ | quantity => True

variable {c d : Column} {k : Kind} {t' : String} {e : RowError} {low high : ℕ}

theorem unread_negative_iff : Unread c t (.negative c t) ↔ ∃ rest y, MinusBefore t rest y := by
  constructor
  · rintro ⟨ht, hx⟩
    exact ⟨_, _, ht, hx⟩
  · rintro ⟨_, _, h⟩
    exact .signed h.minus h.number

theorem refuses_count_iff : (Kind.count low high).Refuses c t (.negative c t) ↔
    ∃ rest y, MinusBefore t rest y := by
  constructor
  · intro h
    cases h with
    | noCount _ hu => exact unread_negative_iff.mp hu
  · rintro ⟨rest, y, h⟩
    refine .noCount (fun n hn => ?_) (.signed h.minus h.number)
    exact (not_spellsCount_of_minus h.minus hn).elim

/-- A quantity may be below zero as a text and zero as a float, and then it is accepted. -/
theorem refuses_quantity_iff : Kind.quantity.Refuses c t (.negative c t) ↔
    ∃ rest y, MinusBefore t rest y ∧
      (Signed rest ∨ 0 < y.toFloat ∧ y.toFloat.isFinite) := by
  constructor
  · intro h
    cases h with
    | noNumeral hn hu =>
      obtain ⟨rest, y, hm⟩ := unread_negative_iff.mp hu
      -- Without a second sign the whole text would be a number.
      refine ⟨rest, y, hm, Or.inl (by_contra fun hs => ?_)⟩
      exact hn _ (hm.spells_iff.mpr ⟨hs, y.neg_neg⟩)
    | @belowZero x hx hf hb =>
      generalize hcs : t.toList = cs at hx
      cases hx with
      | bare hx | plus hx => exact (hx.not_lt_zero hb).elim
      | @minus rest _ hx =>
        have hy := hx.neg
        have hneg : x.toFloat = -x.neg.toFloat := by
          rw [← hy.toFloat_neg, Numeral.neg_neg]
        rw [hneg] at hf hb
        exact ⟨rest, x.neg, ⟨hcs, .bare hy⟩,
          Or.inr ⟨neg_lt_zero_iff.mp hb, isFinite_neg.mp hf⟩⟩
  · rintro ⟨rest, y, h, hy⟩
    by_cases hs : Signed rest
    · exact .noNumeral (fun x hx => (h.spells_iff.mp hx).1 hs) (.signed h.minus h.number)
    · obtain ⟨hp, hf⟩ := hy.resolve_left hs
      have hneg := (h.number.of_not_signed hs).toFloat_neg
      refine .belowZero (h.spells_iff.mpr ⟨hs, y.neg_neg⟩) ?_ ?_
      · rw [hneg]
        exact isFinite_neg.mpr hf
      · rw [hneg]
        exact neg_lt_zero_iff.mpr hp

theorem refuses_negative_iff (hk : k.IsNumeric) : k.Refuses c t (.negative c t) ↔
    ∃ rest y, MinusBefore t rest y ∧
      (k = .quantity → Signed rest ∨ 0 < y.toFloat ∧ y.toFloat.isFinite) := by
  cases k with
  | text | mode => exact hk.elim
  | count => simp [refuses_count_iff]
  | quantity => simp [refuses_quantity_iff]

theorem refuses_garbled_iff (hk : k.IsNumeric) :
    k.Refuses c t (.invalidNumber c t) ∧ GarbledMinus t ↔
      ∃ rest, t.toList = '-' :: rest ∧ ∀ y, ¬ Numeral.Text rest y := by
  constructor
  · rintro ⟨hr, ⟨rest, hm⟩, hn⟩
    have hu : Unread c t (.invalidNumber c t) := by
      cases hr with
      | noCount _ hu | noNumeral _ hu => exact hu
      | notFinite hx => exact (hn _ hx).elim
    cases hu with
    | garbled hg => exact ⟨rest, hm, fun y => hg rest y hm⟩
  · rintro ⟨rest, hm, hy⟩
    have hn : ∀ x, ¬ Numeral.Text t.toList x := by
      intro x hx
      rw [hm, text_minus_iff] at hx
      exact hy _ hx.2
    have hu : Unread c t (.invalidNumber c t) := by
      refine .garbled fun cs y hcs => ?_
      obtain rfl := (List.cons.inj (hm.symm.trans hcs)).2
      exact hy y
    refine ⟨?_, ⟨rest, hm⟩, hn⟩
    cases k with
    | text | mode => exact hk.elim
    | count => exact .noCount (fun _ h => (not_spellsCount_of_minus hm h).elim) hu
    | quantity => exact .noNumeral hn hu

def Shows (c : Column) (t : String) (e : RowError) : Prop :=
  e = .negative c t ∨ e = .invalidNumber c t

theorem Kind.Refuses.of_shows (h : k.Refuses d t' e) (he : Shows c t e) :
    k.IsNumeric ∧ d = c ∧ t' = t := by
  rcases he with rfl | rfl
  · cases h with
    | noCount _ hu | noNumeral _ hu =>
      cases hu
      exact ⟨trivial, rfl, rfl⟩
    | belowZero => exact ⟨trivial, rfl, rfl⟩
  · cases h with
    | noCount _ hu | noNumeral _ hu =>
      cases hu
      exact ⟨trivial, rfl, rfl⟩
    | notFinite => exact ⟨trivial, rfl, rfl⟩

end Column

namespace Row

open Column (Shows)

variable {α : Type} {row : Row} {step : Except RowError α} {c d : Column} {cs : List Column}
  {e : RowError}

theorem LooksAt.eq_error_iff (h : row.LooksAt step cs) :
    step = .error e ↔ row.FirstOffence cs e := by
  refine ⟨h.offence, fun he => ?_⟩
  cases hs : step with
  | ok a =>
    obtain ⟨c, hc, hn⟩ := he.exists_not_accepts
    exact (hn (h.accepts hs c hc)).elim
  | error e' => rw [he.unique (h.offence hs)]

theorem firstOffence_iff : row.FirstOffence cs e ↔
    ∃ before c after, cs = before ++ c :: after ∧ (∀ d ∈ before, row.Accepts d) ∧
      row.Offends c e := by
  constructor
  · intro h
    induction h with
    | here ho => exact ⟨[], _, _, rfl, nofun, ho⟩
    | later ha _ ih =>
      obtain ⟨before, c, after, rfl, hb, ho⟩ := ih
      exact ⟨_ :: before, c, after, rfl, List.forall_mem_cons.mpr ⟨ha, hb⟩, ho⟩
  · rintro ⟨before, c, after, rfl, hb, ho⟩
    exact (FirstOffence.here ho).append_left hb

/-- The cell of a number is looked at: each that is looked at before it is accepted. -/
structure Reaches (row : Row) (c : Column) (t : String) : Prop where
  numeric : c.kind.IsNumeric
  text : row.text? c = some t
  before : ∃ before after, Column.readingOrder = before ++ c :: after ∧
    ∀ d ∈ before, row.Accepts d

theorem offends_iff_of_shows (he : Shows c t e) : row.Offends d e ↔
    d = c ∧ c.kind.IsNumeric ∧ row.text? c = some t ∧ c.kind.Refuses c t e := by
  constructor
  · intro h
    cases h with
    | missing => rcases he with he | he <;> cases he
    | refused ht hr =>
      obtain ⟨hk, rfl, rfl⟩ := hr.of_shows he
      exact ⟨rfl, hk, ht, hr⟩
  · rintro ⟨rfl, -, ht, hr⟩
    exact .refused ht hr

theorem toRun_eq_error_iff (he : Shows c t e) (file marker : String) :
    row.toRun file marker = .error e ↔ row.Reaches c t ∧ c.kind.Refuses c t e := by
  rw [(row.looksAt_toRun file marker).eq_error_iff, firstOffence_iff]
  constructor
  · rintro ⟨before, d, after, ho, hb, hd⟩
    obtain ⟨rfl, hk, ht, hr⟩ := (offends_iff_of_shows he).mp hd
    exact ⟨⟨hk, ht, before, after, ho, hb⟩, hr⟩
  · rintro ⟨⟨hk, ht, before, after, ho, hb⟩, hr⟩
    exact ⟨before, c, after, ho, hb, (offends_iff_of_shows he).mpr ⟨rfl, hk, ht, hr⟩⟩

theorem toRun_eq_negative_iff (file marker : String) :
    row.toRun file marker = .error (.negative c t) ↔ row.Reaches c t ∧
      ∃ rest y, MinusBefore t rest y ∧
        (c.kind = .quantity → Signed rest ∨ 0 < y.toFloat ∧ y.toFloat.isFinite) := by
  rw [toRun_eq_error_iff (Or.inl rfl)]
  exact and_congr_right fun h => Column.refuses_negative_iff h.numeric

/-- The cell that is reported for its sign is the first one that offends. It holds a number below
zero unless two signs stand in it or, in a column of counts, no number but zero after its sign.
What has no number after a minus sign is reported as no number. -/
theorem sign_error_iff (row : Row) (file marker : String) (c : Column) (t : String) :
    (row.toRun file marker = .error (.negative c t) ∧ SpellsBelowZero t ↔
      row.Reaches c t ∧ ∃ rest y, MinusBefore t rest y ∧ ¬ Signed rest ∧ y.Positive ∧
        (c.kind = .quantity → 0 < y.toFloat ∧ y.toFloat.isFinite)) ∧
    (row.toRun file marker = .error (.negative c t) ∧ ¬ SpellsBelowZero t ↔
      row.Reaches c t ∧ ∃ rest y, MinusBefore t rest y ∧
        (Signed rest ∨ c.kind ≠ .quantity ∧ ¬ y.Positive)) ∧
    (row.toRun file marker = .error (.invalidNumber c t) ∧ GarbledMinus t ↔
      row.Reaches c t ∧ ∃ rest, t.toList = '-' :: rest ∧ ∀ y, ¬ Numeral.Text rest y) := by
  refine ⟨?_, ?_, ?_⟩
  · rw [toRun_eq_negative_iff]
    constructor
    · rintro ⟨⟨hr, rest, y, hm, hq⟩, hz⟩
      obtain ⟨hs, hp⟩ := hm.spellsBelowZero_iff.mp hz
      exact ⟨hr, rest, y, hm, hs, hp, fun hk => (hq hk).resolve_left hs⟩
    · rintro ⟨hr, rest, y, hm, hs, hp, hq⟩
      exact ⟨⟨hr, rest, y, hm, fun hk => Or.inr (hq hk)⟩, hm.spellsBelowZero_iff.mpr ⟨hs, hp⟩⟩
  · rw [toRun_eq_negative_iff]
    constructor
    · rintro ⟨⟨hr, rest, y, hm, hq⟩, hz⟩
      rw [hm.spellsBelowZero_iff, not_and_or, not_not] at hz
      refine ⟨hr, rest, y, hm, ?_⟩
      by_cases hs : Signed rest
      · exact Or.inl hs
      · have hp := hz.resolve_left hs
        refine Or.inr ⟨fun hk => hp ?_, hp⟩
        exact (hm.number.of_not_signed hs).positive ((hq hk).resolve_left hs).1
    · rintro ⟨hr, rest, y, hm, h⟩
      rw [hm.spellsBelowZero_iff, not_and_or, not_not]
      exact ⟨⟨hr, rest, y, hm, fun hk => h.imp_right fun hc => (hc.1 hk).elim⟩,
        h.imp_right And.right⟩
  · rw [toRun_eq_error_iff (Or.inr rfl), and_assoc]
    exact and_congr_right fun h => Column.refuses_garbled_iff h.numeric

/-- A throughput with two signs is no number, and is reported as one that is below zero. -/
theorem doubled_sign_is_negative :
    Row.toRun ⟨.ofHeaders ["impl", "P", "C", "payload_us", "throughput"],
      ["ebr", "1", "1", "100", "--5"]⟩ "a.csv" "pool" = .error (.negative .throughput "--5") ∧
    GarbledMinus "--5" := by
  refine ⟨by rfl, ⟨['-', '5'], rfl⟩, fun x hx => ?_⟩
  exact (text_minus_iff.mp hx).1 ⟨'-', rfl, Or.inl rfl⟩

end Row

end QueueBench
