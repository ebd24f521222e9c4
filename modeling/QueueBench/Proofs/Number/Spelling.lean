import Mathlib.Algebra.Group.Int.Defs
import Mathlib.Data.List.Basic
import QueueBench.Number.Numeral

/-! # Texts of numbers

The grammar of the texts that are read as a count or as a numeral, and the number that each of
them stands for. Both readers accept exactly these texts. -/
namespace QueueBench.Number

variable {cs ds es : List Char} {n start : ℕ} {e : ℤ} {negative : Bool} {x : Numeral}

structure Digits (ds : List Char) : Prop where
  ne_nil : ds ≠ []
  isDigit : ∀ c ∈ ds, c.isDigit

theorem Digits.append (hd : Digits ds) (he : ∀ c ∈ es, c.isDigit) : Digits (ds ++ es) where
  ne_nil := List.append_ne_nil_of_left_ne_nil hd.ne_nil es
  isDigit c hc := (List.mem_append.mp hc).elim (hd.isDigit c) (he c)

theorem toLower_of_isDigit {c : Char} (hc : c.isDigit) : c.toLower = c := by
  simp only [Char.isDigit, Bool.and_eq_true, decide_eq_true_eq] at hc
  have hu : ¬ (c.val ≥ 'A'.val ∧ c.val ≤ 'Z'.val) := by
    rintro ⟨hA, -⟩
    exact absurd (UInt32.le_trans hA hc.2) (by decide)
  unfold Char.toLower
  rw [dif_neg hu]

theorem digits?_eq_some_iff : digits? start cs = some n ↔
    (∀ c ∈ cs, c.isDigit) ∧ Nat.ofDigitChars 10 cs start = n := by
  induction cs generalizing start with
  | nil => simp [digits?]
  | cons c cs ih =>
    rw [digits?, digitValue?, Nat.ofDigitChars_cons]
    by_cases hc : c.isDigit
    · rw [if_pos hc, Option.bind_some, ih, Nat.mul_comm start]
      simp [hc]
    · rw [if_neg hc]
      simp [hc]

theorem unsigned?_eq_some_iff :
    unsigned? cs = some n ↔ Digits cs ∧ Nat.ofDigitChars 10 cs 0 = n := by
  cases cs with
  | nil => exact iff_of_false nofun fun h => h.1.ne_nil rfl
  | cons c cs =>
    rw [unsigned?, digits?_eq_some_iff]
    · exact and_congr_left fun _ => ⟨fun h => ⟨List.cons_ne_nil _ _, h⟩, Digits.isDigit⟩
    · nofun

theorem Digits.ne_cons (hd : Digits ds) {c : Char} (hc : c.isDigit = false) (cs : List Char) :
    ds ≠ c :: cs := by
  rintro rfl
  rw [hd.isDigit c List.mem_cons_self] at hc
  cases hc

/-- An optional plus sign and one or more digits. -/
def SpellsCount (s : String) (n : ℕ) : Prop :=
  ∃ ds, (s.toList = ds ∨ s.toList = '+' :: ds) ∧ Digits ds ∧ Nat.ofDigitChars 10 ds 0 = n

theorem count?_eq_some_iff {limit : ℕ} {s : String} :
    count? limit s = some n ↔ SpellsCount s n ∧ n ≤ limit := by
  rw [count?, Option.filter_eq_some_iff, decide_eq_true_eq]
  refine and_congr_left fun _ => ?_
  unfold SpellsCount
  split
  · rename_i cs hs
    rw [unsigned?_eq_some_iff]
    constructor
    · rintro ⟨hd, hv⟩
      exact ⟨cs, Or.inr hs, hd, hv⟩
    · rintro ⟨ds, hds | hds, hd, hv⟩
      · exact (hd.ne_cons rfl cs (hds.symm.trans hs)).elim
      · obtain rfl := (List.cons.inj (hds.symm.trans hs)).2
        exact ⟨hd, hv⟩
  · rename_i cs hs
    rw [unsigned?_eq_some_iff]
    constructor
    · rintro ⟨hd, hv⟩
      exact ⟨_, Or.inl rfl, hd, hv⟩
    · rintro ⟨ds, rfl | hds, hd, hv⟩
      · exact ⟨hd, hv⟩
      · exact (hs ds hds).elim

theorem SpellsCount.unique {s : String} {m : ℕ} (h : SpellsCount s n) (h' : SpellsCount s m) :
    n = m := by
  have hn := count?_eq_some_iff.mpr ⟨h, Nat.le_max_left n m⟩
  rw [count?_eq_some_iff.mpr ⟨h', Nat.le_max_right n m⟩] at hn
  exact (Option.some.inj hn).symm

namespace Numeral

/-- Nothing, or a mark, an optional sign and one or more digits. -/
inductive ExponentText : List Char → ℤ → Prop
  | absent : ExponentText [] 0
  | bare {mark : Char} {ds : List Char} : mark = 'e' ∨ mark = 'E' → Digits ds →
      ExponentText (mark :: ds) (Nat.ofDigitChars 10 ds 0)
  | plus {mark : Char} {ds : List Char} : mark = 'e' ∨ mark = 'E' → Digits ds →
      ExponentText (mark :: '+' :: ds) (Nat.ofDigitChars 10 ds 0)
  | minus {mark : Char} {ds : List Char} : mark = 'e' ∨ mark = 'E' → Digits ds →
      ExponentText (mark :: '-' :: ds) (-Nat.ofDigitChars 10 ds 0)

/-- A numeral without its sign: a word in any letter case, or digits with an optional point among
or beside them, and an exponent. -/
inductive MagnitudeText (negative : Bool) : List Char → Numeral → Prop
  | nan {cs : List Char} : cs.map Char.toLower = "nan".toList → MagnitudeText negative cs .nan
  | infinite {cs : List Char} :
      cs.map Char.toLower = "inf".toList ∨ cs.map Char.toLower = "infinity".toList →
      MagnitudeText negative cs (.infinite negative)
  | whole {ds es : List Char} {e : ℤ} : Digits ds → ExponentText es e →
      MagnitudeText negative (ds ++ es) (.finite negative (Nat.ofDigitChars 10 ds 0) e)
  | pointed {ds fs es : List Char} {e : ℤ} : Digits (ds ++ fs) → ExponentText es e →
      MagnitudeText negative (ds ++ '.' :: (fs ++ es))
        (.finite negative (Nat.ofDigitChars 10 (ds ++ fs) 0) (e - fs.length))

inductive Text : List Char → Numeral → Prop
  | bare {cs : List Char} {x : Numeral} : MagnitudeText false cs x → Text cs x
  | plus {cs : List Char} {x : Numeral} : MagnitudeText false cs x → Text ('+' :: cs) x
  | minus {cs : List Char} {x : Numeral} : MagnitudeText true cs x → Text ('-' :: cs) x

theorem exponent?_minus : exponent? ('-' :: cs) = (unsigned? cs).map (-Int.ofNat ·) := by
  rw [exponent?]
  cases unsigned? cs <;> rfl

theorem exponent?_plus : exponent? ('+' :: cs) = (unsigned? cs).map Int.ofNat := by
  rw [exponent?]
  cases unsigned? cs <;> rfl

theorem exponent?_bare (hm : ∀ ds, cs ≠ '-' :: ds) (hp : ∀ ds, cs ≠ '+' :: ds) :
    exponent? cs = (unsigned? cs).map Int.ofNat := by
  rw [exponent?]
  · cases unsigned? cs <;> rfl
  · exact hm
  · exact hp

theorem exponent?_eq_some_iff {mark : Char} (hm : mark = 'e' ∨ mark = 'E') :
    exponent? cs = some e ↔ ExponentText (mark :: cs) e := by
  have hv : ∀ {ds : List Char} {f : ℕ → ℤ}, (unsigned? ds).map f = some e ↔
      Digits ds ∧ f (Nat.ofDigitChars 10 ds 0) = e := by
    simp [unsigned?_eq_some_iff, and_assoc]
  constructor
  · intro h
    by_cases hn : ∃ ds, cs = '-' :: ds
    · obtain ⟨ds, rfl⟩ := hn
      rw [exponent?_minus] at h
      obtain ⟨hd, rfl⟩ := hv.mp h
      exact .minus hm hd
    · by_cases hp : ∃ ds, cs = '+' :: ds
      · obtain ⟨ds, rfl⟩ := hp
        rw [exponent?_plus] at h
        obtain ⟨hd, rfl⟩ := hv.mp h
        exact .plus hm hd
      · rw [exponent?_bare (not_exists.mp hn) (not_exists.mp hp)] at h
        obtain ⟨hd, rfl⟩ := hv.mp h
        exact .bare hm hd
  · intro h
    cases h with
    | bare _ hd =>
      rw [exponent?_bare (hd.ne_cons rfl) (hd.ne_cons rfl)]
      exact hv.mpr ⟨hd, rfl⟩
    | plus _ hd => exact exponent?_plus.trans (hv.mpr ⟨hd, rfl⟩)
    | minus _ hd => exact exponent?_minus.trans (hv.mpr ⟨hd, rfl⟩)

theorem tail?_eq_some_iff : tail? es = some e ↔ ExponentText es e := by
  cases es with
  | nil =>
    constructor
    · intro h
      obtain rfl := Option.some.inj h
      exact .absent
    · rintro ⟨⟩
      rfl
  | cons mark cs =>
    rw [tail?]
    by_cases hm : mark = 'e' ∨ mark = 'E'
    · rw [if_pos hm, exponent?_eq_some_iff hm]
    · rw [if_neg hm]
      refine iff_of_false nofun fun h => hm ?_
      cases h <;> assumption

theorem ExponentText.head_not_digit (h : ExponentText es e) :
    ∀ c ∈ es.head?, c.isDigit = false ∧ c ≠ '.' := by
  intro c hc
  cases h with
  | absent => cases hc
  | bare hm | plus hm | minus hm =>
    obtain rfl := Option.some.inj hc
    rcases hm with rfl | rfl <;> decide

/-- Digits end where a character stands that is none. -/
theorem span_digits (hd : ∀ c ∈ ds, c.isDigit) (hr : ∀ c ∈ es.head?, c.isDigit = false) :
    (ds ++ es).takeWhile Char.isDigit = ds ∧ (ds ++ es).dropWhile Char.isDigit = es := by
  rw [List.takeWhile_append_of_pos hd, List.dropWhile_append_of_pos hd]
  cases es with
  | nil => simp
  | cons c es => simp [hr c rfl]

theorem decimal?_of_split {ws fs : List Char} (hs : split cs = (ws, fs, es)) :
    decimal? negative cs = some x ↔ ∃ e, Digits (ws ++ fs) ∧ ExponentText es e ∧
      x = .finite negative (Nat.ofDigitChars 10 (ws ++ fs) 0) (e - fs.length) := by
  unfold decimal?
  rw [hs]
  dsimp only
  constructor
  · intro h
    split at h
    · rename_i n e hn he
      obtain ⟨hd, rfl⟩ := unsigned?_eq_some_iff.mp hn
      exact ⟨e, hd, tail?_eq_some_iff.mp he, (Option.some.inj h).symm⟩
    · cases h
  · rintro ⟨e, hd, he, rfl⟩
    rw [unsigned?_eq_some_iff.mpr ⟨hd, rfl⟩, tail?_eq_some_iff.mpr he]

theorem split_whole (hd : ∀ c ∈ ds, c.isDigit)
    (hr : ∀ c ∈ es.head?, c.isDigit = false ∧ c ≠ '.') : split (ds ++ es) = (ds, [], es) := by
  obtain ⟨ht, hdrop⟩ := span_digits hd fun c hc => (hr c hc).1
  unfold split
  rw [ht, hdrop]
  split
  · exact ((hr '.' rfl).2 rfl).elim
  · rfl

theorem split_pointed {fs : List Char} (hd : ∀ c ∈ ds, c.isDigit) (hf : ∀ c ∈ fs, c.isDigit)
    (hr : ∀ c ∈ es.head?, c.isDigit = false) :
    split (ds ++ '.' :: (fs ++ es)) = (ds, fs, es) := by
  have hp : ∀ c ∈ ('.' :: (fs ++ es)).head?, c.isDigit = false := by
    intro c hc
    obtain rfl := Option.some.inj hc
    rfl
  obtain ⟨ht, hdrop⟩ := span_digits hd hp
  obtain ⟨ht', hdrop'⟩ := span_digits hf hr
  unfold split
  rw [ht, hdrop]
  simp only [ht', hdrop']

theorem exists_split (cs : List Char) :
    (∃ ds es, cs = ds ++ es ∧ split cs = (ds, [], es)) ∨
      ∃ ds fs es, cs = ds ++ '.' :: (fs ++ es) ∧ split cs = (ds, fs, es) := by
  have hcs := List.takeWhile_append_dropWhile (p := Char.isDigit) (l := cs)
  unfold split
  split
  · rename_i rest hrest
    refine Or.inr ⟨_, _, _, ?_, rfl⟩
    rw [List.takeWhile_append_dropWhile, ← hrest, hcs]
  · exact Or.inl ⟨_, _, hcs.symm, rfl⟩

theorem magnitudeText_of_decimal (h : decimal? negative cs = some x) :
    MagnitudeText negative cs x := by
  rcases exists_split cs with ⟨ws, rest, rfl, hs⟩ | ⟨ws, fs, rest, rfl, hs⟩ <;>
    obtain ⟨e, hd, he, rfl⟩ := (decimal?_of_split hs).mp h
  · rw [List.append_nil] at hd
    have hw : MagnitudeText negative (ws ++ rest) _ := .whole hd he
    simpa using hw
  · exact .pointed hd he

/-- No word for a value that is not finite has a digit. -/
theorem magnitude?_of_digit {c : Char} (hm : c ∈ cs) (hc : c.isDigit) :
    magnitude? negative cs = decimal? negative cs := by
  have hw : ∀ word : List Char, (∀ d ∈ word, d.isDigit = false) → cs.map Char.toLower ≠ word := by
    rintro word hword rfl
    have hd := hword _ (List.mem_map_of_mem hm)
    rw [toLower_of_isDigit hc, hc] at hd
    cases hd
  unfold magnitude?
  rw [if_neg (hw _ (by simp)), if_neg]
  rintro (h | h)
  · exact hw _ (by simp) h
  · exact hw _ (by simp) h

theorem magnitude?_eq_some_iff :
    magnitude? negative cs = some x ↔ MagnitudeText negative cs x := by
  constructor
  · intro h
    unfold magnitude? at h
    dsimp only at h
    split at h
    · rename_i hw
      obtain rfl := Option.some.inj h
      exact .nan hw
    · split at h
      · rename_i hw
        obtain rfl := Option.some.inj h
        exact .infinite hw
      · exact magnitudeText_of_decimal h
  · intro h
    cases h with
    | nan hw => exact if_pos hw
    | infinite hw =>
      unfold magnitude?
      rw [if_neg, if_pos hw]
      rcases hw with hw | hw <;> rw [hw] <;> decide
    | whole hd he =>
      obtain ⟨c, hc⟩ := List.exists_mem_of_ne_nil _ hd.ne_nil
      rw [magnitude?_of_digit (List.mem_append_left _ hc) (hd.isDigit c hc),
        decimal?_of_split (split_whole hd.isDigit he.head_not_digit)]
      exact ⟨_, by simpa using hd, he, by simp⟩
    | pointed hd he =>
      obtain ⟨c, hc⟩ := List.exists_mem_of_ne_nil _ hd.ne_nil
      rw [magnitude?_of_digit (c := c) (by grind) (hd.isDigit c hc), decimal?_of_split
        (split_pointed (fun c hc => hd.isDigit c (List.mem_append_left _ hc))
          (fun c hc => hd.isDigit c (List.mem_append_right _ hc))
          fun c hc => (he.head_not_digit c hc).1)]
      exact ⟨_, hd, he, rfl⟩

/-- The sign of a numeral stands before its magnitude. -/
theorem MagnitudeText.head_not_sign (h : MagnitudeText negative cs x) :
    ∀ c ∈ cs.head?, c ≠ '-' ∧ c ≠ '+' := by
  have hword : ∀ first word, cs.map Char.toLower = first :: word → first.isAlpha →
      ∀ c ∈ cs.head?, c ≠ '-' ∧ c ≠ '+' := by
    intro first word hw ha c hc
    obtain ⟨rest, rfl⟩ := List.head?_eq_some_iff.mp hc
    obtain rfl := (List.cons.inj hw).1
    constructor <;> rintro rfl <;> cases ha
  have hdigit : ∀ {c : Char}, c.isDigit → c ≠ '-' ∧ c ≠ '+' := by
    intro c hd
    constructor <;> rintro rfl <;> cases hd
  cases h with
  | nan hw => exact hword _ _ hw rfl
  | infinite hw => exact hw.elim (hword _ _ · rfl) (hword _ _ · rfl)
  | @whole ds es e hd he =>
    intro c hc
    obtain ⟨d, ds, rfl⟩ := List.exists_cons_of_ne_nil hd.ne_nil
    obtain rfl := Option.some.inj hc
    exact hdigit (hd.isDigit d List.mem_cons_self)
  | @pointed ds fs es e hd he =>
    intro c hc
    rcases ds with _ | ⟨d, ds⟩
    · obtain rfl := Option.some.inj hc
      decide
    · obtain rfl := Option.some.inj hc
      exact hdigit (hd.isDigit d List.mem_cons_self)

theorem ofChars?_eq_some_iff : ofChars? cs = some x ↔ Text cs x := by
  constructor
  · intro h
    unfold ofChars? at h
    split at h
    · exact .minus (magnitude?_eq_some_iff.mp h)
    · exact .plus (magnitude?_eq_some_iff.mp h)
    · exact .bare (magnitude?_eq_some_iff.mp h)
  · intro h
    cases h with
    | minus hm => exact magnitude?_eq_some_iff.mpr hm
    | plus hm => exact magnitude?_eq_some_iff.mpr hm
    | bare hm =>
      have hs := hm.head_not_sign
      unfold ofChars?
      split
      · exact ((hs '-' rfl).1 rfl).elim
      · exact ((hs '+' rfl).2 rfl).elim
      · exact magnitude?_eq_some_iff.mpr hm

theorem Text.unique {y : Numeral} (h : Text cs x) (h' : Text cs y) : x = y :=
  Option.some.inj ((ofChars?_eq_some_iff.mpr h).symm.trans (ofChars?_eq_some_iff.mpr h'))

end Numeral

end QueueBench.Number
