import Mathlib.Data.List.Infix
import QueueBench.Proofs.Number.Spelling
import QueueBench.Proofs.Row
import QueueBench.Proofs.Text.Blank

/-! # Which rows are read

What each cell of a row must say, the complaint about a cell that says something else, and the
order in which the cells are looked at. A row is read exactly when no cell offends, the run holds
the values that the cells spell, and otherwise the first offending cell is the one reported. -/
namespace QueueBench

open Number

theorem Text.occursIn_iff {needle hay : List Char} : occursIn needle hay ↔ needle <:+: hay := by
  induction hay with
  | nil => rw [occursIn, List.isEmpty_iff, List.infix_nil]
  | cons c cs ih =>
    rw [occursIn, Bool.or_eq_true, List.isPrefixOf_iff_prefix, ih, List.infix_cons_iff]

namespace AllocMode

def spellings : AllocMode → List String
  | heap => ["heap", "malloc", "new", "default"]
  | pooled => ["pool", "pooled", "pool_alloc"]

theorem spellings_disjoint {m m' : AllocMode} {word : String} (h : word ∈ m.spellings)
    (h' : word ∈ m'.spellings) : m = m' := by
  cases m <;> cases m' <;> first | rfl | (simp only [spellings] at h h'; grind)

theorem ofCell?_eq_some_iff {cell : String} {m : AllocMode} :
    ofCell? cell = some m ↔ Text.asciiLower (Text.trim cell) ∈ m.spellings := by
  unfold ofCell?
  dsimp only
  split
  · rename_i hp
    rw [Option.some.injEq]
    constructor
    · rintro rfl
      exact hp
    · exact spellings_disjoint (m := pooled) hp
  · rename_i hp
    split
    · rename_i hh
      rw [Option.some.injEq]
      constructor
      · rintro rfl
        exact hh
      · exact spellings_disjoint (m := heap) hh
    · rename_i hh
      refine iff_of_false nofun fun h => ?_
      cases m
      · exact hh h
      · exact hp h

theorem ofFileName_eq_pooled_iff {file marker : String} : ofFileName file marker = pooled ↔
    marker ≠ "" ∧ (Text.asciiLower marker).toList <:+: (Text.asciiLower file).toList := by
  unfold ofFileName
  rw [← Text.occursIn_iff]
  split
  · rename_i h
    exact iff_of_true rfl h
  · rename_i h
    exact iff_of_false nofun h

end AllocMode

namespace Column

inductive Kind where
  | text
  | mode
  | count (low high : ℕ)
  | quantity

def kind : Column → Kind
  | implementation => .text
  | mode => .mode
  | producers | consumers | duration => .count 1 (2 ^ 32 - 1)
  | payload => .count 0 (2 ^ 32 - 1)
  | maxDepth => .count 0 (2 ^ 64 - 1)
  | throughput | latency _ | peakMemory => .quantity

/-- The texts that can be read, of those that are not blank. -/
def Kind.Admits (t : String) : Kind → Prop
  | text => True
  | mode => ∃ m : AllocMode, Text.asciiLower t ∈ m.spellings
  | count low high => ∃ n, SpellsCount t n ∧ low ≤ n ∧ n ≤ high
  | quantity => ∃ x, Numeral.Text t.toList x ∧ x.toFloat.isFinite ∧ ¬ x.toFloat < 0

inductive Unread (c : Column) (t : String) : RowError → Prop
  | signed {cs x} : t.toList = '-' :: cs → Numeral.Text cs x → Unread c t (.negative c t)
  | garbled : (∀ cs x, t.toList = '-' :: cs → ¬ Numeral.Text cs x) →
      Unread c t (.invalidNumber c t)

inductive Kind.Refuses (c : Column) (t : String) : Kind → RowError → Prop
  | unknown : (∀ m : AllocMode, Text.asciiLower t ∉ m.spellings) → Refuses c t mode (.unknownMode t)
  | zero {low high} : SpellsCount t 0 → 0 < low → Refuses c t (count low high) (.notPositive c "0")
  | noCount {low high e} : (∀ n, SpellsCount t n → high < n) → Unread c t e →
      Refuses c t (count low high) e
  | noNumeral {e} : (∀ x, ¬ Numeral.Text t.toList x) → Unread c t e → Refuses c t quantity e
  | notFinite {x} : Numeral.Text t.toList x → ¬ x.toFloat.isFinite →
      Refuses c t quantity (.invalidNumber c t)
  | belowZero {x} : Numeral.Text t.toList x → x.toFloat.isFinite → x.toFloat < 0 →
      Refuses c t quantity (.negative c t)

theorem Unread.unique {c : Column} {t : String} {e e' : RowError} (h : Unread c t e)
    (h' : Unread c t e') : e = e' := by
  cases h with
  | signed ht hx =>
    cases h' with
    | signed => rfl
    | garbled hn => exact (hn _ _ ht hx).elim
  | garbled hn =>
    cases h' with
    | signed ht hx => exact (hn _ _ ht hx).elim
    | garbled => rfl

theorem unread_refusal (c : Column) (t : String) : Unread c t (Row.refusal c t) := by
  have hs : Row.hasMinusSign t ↔ ∃ cs x, t.toList = '-' :: cs ∧ Numeral.Text cs x := by
    unfold Row.hasMinusSign
    split
    · rename_i cs ht
      rw [Option.isSome_iff_exists]
      constructor
      · rintro ⟨x, hx⟩
        exact ⟨cs, x, ht, Numeral.ofChars?_eq_some_iff.mp hx⟩
      · rintro ⟨cs', x, ht', hx⟩
        obtain rfl := (List.cons.inj (ht.symm.trans ht')).2
        exact ⟨x, Numeral.ofChars?_eq_some_iff.mpr hx⟩
    · rename_i hn
      exact iff_of_false nofun fun ⟨cs, _, ht, _⟩ => hn cs ht
  unfold Row.refusal
  by_cases h : Row.hasMinusSign t
  · obtain ⟨cs, x, ht, hx⟩ := hs.mp h
    rw [if_pos h]
    exact .signed ht hx
  · rw [if_neg h]
    exact .garbled fun cs x ht hx => h (hs.mpr ⟨cs, x, ht, hx⟩)

theorem Kind.Refuses.not_admits {c : Column} {t : String} {k : Kind} {e : RowError}
    (h : k.Refuses c t e) : ¬ k.Admits t := by
  cases h with
  | unknown hm =>
    rintro ⟨m, hw⟩
    exact hm m hw
  | zero hz hl =>
    rintro ⟨n, hn, hlow, -⟩
    have := hz.unique hn
    omega
  | noCount hc _ =>
    rintro ⟨n, hn, -, hhigh⟩
    have := hc n hn
    omega
  | noNumeral hc _ =>
    rintro ⟨x, hx, -, -⟩
    exact hc x hx
  | notFinite hx hf =>
    rintro ⟨y, hy, hfy, -⟩
    rw [hx.unique hy] at hf
    exact hf hfy
  | belowZero hx _ hb =>
    rintro ⟨y, hy, -, hby⟩
    rw [hx.unique hy] at hb
    exact hby hb

theorem Kind.Refuses.unique {c : Column} {t : String} {k : Kind} {e e' : RowError}
    (h : k.Refuses c t e) (h' : k.Refuses c t e') : e = e' := by
  cases h with
  | unknown => cases h' with
    | unknown => rfl
  | zero hz hl => cases h' with
    | zero => rfl
    | noCount hc => exact absurd (hc 0 hz) (Nat.not_lt_zero _)
  | noCount hc hu => cases h' with
    | zero hz => exact absurd (hc 0 hz) (Nat.not_lt_zero _)
    | noCount _ hu' => exact hu.unique hu'
  | noNumeral hc hu => cases h' with
    | noNumeral _ hu' => exact hu.unique hu'
    | notFinite hx => exact (hc _ hx).elim
    | belowZero hx => exact (hc _ hx).elim
  | notFinite hx hf => cases h' with
    | noNumeral hc => exact (hc _ hx).elim
    | notFinite => rfl
    | belowZero hy hfy =>
      rw [hx.unique hy] at hf
      exact (hf hfy).elim
  | belowZero hx hf => cases h' with
    | noNumeral hc => exact (hc _ hx).elim
    | notFinite hy hfy =>
      rw [hx.unique hy] at hf
      exact (hfy hf).elim
    | belowZero => rfl

/-- The order in which the cells of a row are looked at. -/
def readingOrder : List Column :=
  [implementation, producers, consumers, payload, throughput, mode, duration] ++
    Percentile.all.map latency ++ [peakMemory, maxDepth]

theorem mem_readingOrder (c : Column) : c ∈ readingOrder := by
  cases c with
  | latency p => cases p <;> decide
  | _ => decide

end Column

namespace Row

/-- A cell that is absent is accepted where the column is optional. -/
def Accepts (row : Row) (c : Column) : Prop :=
  match row.text? c with
  | none => c.isMandatory = false
  | some t => c.kind.Admits t

inductive Offends (row : Row) (c : Column) : RowError → Prop
  | missing : row.text? c = none → c.isMandatory → Offends row c (.missingField c)
  | refused {t e} : row.text? c = some t → c.kind.Refuses c t e → Offends row c e

/-- The complaint about the first of some cells that offends. -/
inductive FirstOffence (row : Row) : List Column → RowError → Prop
  | here {c cs e} : row.Offends c e → FirstOffence row (c :: cs) e
  | later {c cs e} : row.Accepts c → FirstOffence row cs e → FirstOffence row (c :: cs) e

structure LooksAt {α : Type} (row : Row) (step : Except RowError α) (cs : List Column) : Prop where
  accepts : ∀ {a}, step = .ok a → ∀ c ∈ cs, row.Accepts c
  offence : ∀ {e}, step = .error e → row.FirstOffence cs e

variable {α β : Type} {row : Row} {c : Column} {cs ds : List Column} {t : String} {e e' : RowError}

theorem Offends.not_accepts (h : row.Offends c e) : ¬ row.Accepts c := by
  unfold Accepts
  cases h with
  | missing ht hm =>
    rw [ht, hm]
    nofun
  | refused ht hr =>
    rw [ht]
    exact hr.not_admits

theorem Offends.unique (h : row.Offends c e) (h' : row.Offends c e') : e = e' := by
  cases h with
  | missing ht => cases h' with
    | missing => rfl
    | refused ht' => cases ht.symm.trans ht'
  | refused ht hr => cases h' with
    | missing ht' => cases ht.symm.trans ht'
    | refused ht' hr' =>
      obtain rfl := Option.some.inj (ht.symm.trans ht')
      exact hr.unique hr'

theorem FirstOffence.unique (h : row.FirstOffence cs e) (h' : row.FirstOffence cs e') :
    e = e' := by
  induction h with
  | here ho => cases h' with
    | here ho' => exact ho.unique ho'
    | later ha => exact (ho.not_accepts ha).elim
  | later ha _ ih => cases h' with
    | here ho => exact (ho.not_accepts ha).elim
    | later _ h' => exact ih h'

theorem FirstOffence.exists_not_accepts (h : row.FirstOffence cs e) :
    ∃ c ∈ cs, ¬ row.Accepts c := by
  induction h with
  | here ho => exact ⟨_, List.mem_cons_self, ho.not_accepts⟩
  | later _ _ ih =>
    obtain ⟨c, hc, hn⟩ := ih
    exact ⟨c, List.mem_cons_of_mem _ hc, hn⟩

theorem FirstOffence.append_right (h : row.FirstOffence cs e) (ds : List Column) :
    row.FirstOffence (cs ++ ds) e := by
  induction h with
  | here ho => exact .here ho
  | later ha _ ih => exact .later ha ih

theorem FirstOffence.append_left (ha : ∀ c ∈ cs, row.Accepts c) (h : row.FirstOffence ds e) :
    row.FirstOffence (cs ++ ds) e := by
  induction cs with
  | nil => exact h
  | cons c cs ih =>
    exact .later (ha c List.mem_cons_self) (ih fun c hc => ha c (List.mem_cons_of_mem _ hc))

namespace LooksAt

variable {step : Except RowError α} {rest : α → Except RowError β}

theorem of_ok {a : α} (hs : step = .ok a) (ha : row.Accepts c) : row.LooksAt step [c] where
  accepts _ := List.forall_mem_singleton.mpr ha
  offence he := nomatch hs.symm.trans he

theorem of_error (hs : step = .error e) (ho : row.Offends c e) : row.LooksAt step [c] where
  accepts ha := nomatch hs.symm.trans ha
  offence he := Except.error.inj (hs.symm.trans he) ▸ .here ho

theorem pure (a : α) : row.LooksAt (Pure.pure a) [] where
  accepts _ := nofun
  offence := nofun

theorem bind (hs : row.LooksAt step cs) (hr : ∀ a, row.LooksAt (rest a) ds) :
    row.LooksAt (step >>= rest) (cs ++ ds) := by
  rcases step with e | a
  · constructor
    · nofun
    · rintro e' ⟨⟩
      exact (hs.offence rfl).append_right ds
  · have ha := hs.accepts rfl
    constructor
    · intro b hb c hc
      rcases List.mem_append.mp hc with hc | hc
      · exact ha c hc
      · exact (hr a).accepts hb c hc
    · intro e he
      exact ((hr a).offence he).append_left ha

/-- A cell that is read and then asked for counts as one look at it. -/
theorem bind_required {cell : Except RowError (Option α)}
    (hs : row.LooksAt (cell >>= required c) [c]) (hr : ∀ a, row.LooksAt (rest a) ds) :
    row.LooksAt (cell >>= fun o => required c o >>= rest) ([c] ++ ds) := by
  rw [← bind_assoc]
  exact hs.bind hr

end LooksAt

structure Answers {α : Type} (row : Row) (c : Column) (step : Except RowError (Option α)) :
    Prop where
  absent : row.text? c = none → step = .ok none
  present : ∀ {t}, row.text? c = some t →
    (∃ a, step = .ok (some a) ∧ c.kind.Admits t) ∨ ∃ e, step = .error e ∧ c.kind.Refuses c t e

namespace Answers

variable {step : Except RowError (Option α)}

theorem optional (h : row.Answers c step) (hm : c.isMandatory = false) :
    row.LooksAt step [c] := by
  cases ht : row.text? c with
  | none =>
    refine .of_ok (h.absent ht) ?_
    rwa [Accepts, ht]
  | some t =>
    rcases h.present ht with ⟨a, hs, ha⟩ | ⟨e, hs, he⟩
    · refine .of_ok hs ?_
      rwa [Accepts, ht]
    · exact .of_error hs (.refused ht he)

theorem mandatory (h : row.Answers c step) (hm : c.isMandatory) :
    row.LooksAt (step >>= required c) [c] := by
  cases ht : row.text? c with
  | none =>
    rw [h.absent ht]
    exact .of_error rfl (.missing ht hm)
  | some t =>
    rcases h.present ht with ⟨a, rfl, ha⟩ | ⟨e, rfl, he⟩
    · refine .of_ok rfl ?_
      rwa [Accepts, ht]
    · exact .of_error rfl (.refused ht he)

theorem map (h : row.Answers c step) (f : α → β) :
    row.Answers c (step >>= fun o => Pure.pure (o.map f)) where
  absent ht := by rw [h.absent ht]; rfl
  present ht := by
    rcases h.present ht with ⟨a, rfl, ha⟩ | ⟨e, rfl, he⟩
    · exact Or.inl ⟨f a, rfl, ha⟩
    · exact Or.inr ⟨e, rfl, he⟩

end Answers

variable {low high : ℕ}

theorem count_of_absent (ht : row.text? c = none) : row.count high c = .ok none := by
  rw [count, ht]

theorem count_of_present (hk : c.kind = .count low high) (ht : row.text? c = some t) :
    (∃ n, row.count high c = .ok (some n) ∧ SpellsCount t n ∧ n ≤ high) ∨
      ∃ e, row.count high c = .error e ∧ c.kind.Refuses c t e := by
  rw [count, ht, hk]
  cases hn : count? high t with
  | some n => exact Or.inl ⟨n, by simp only [hn], count?_eq_some_iff.mp hn⟩
  | none =>
    refine Or.inr ⟨_, by simp only [hn], .noCount ?_ (Column.unread_refusal c t)⟩
    intro n hs
    by_contra hle
    rw [count?_eq_some_iff.mpr ⟨hs, Nat.le_of_not_lt hle⟩] at hn
    cases hn

theorem answers_count (hk : c.kind = .count 0 high) : row.Answers c (row.count high c) where
  absent := count_of_absent
  present ht := by
    refine (count_of_present hk ht).imp_left ?_
    rintro ⟨n, hn, hs, hle⟩
    rw [hk]
    exact ⟨n, hn, n, hs, Nat.zero_le n, hle⟩

theorem answers_quantity (hk : c.kind = .quantity) : row.Answers c (row.quantity c) where
  absent ht := by rw [quantity, ht]
  present {t} ht := by
    rw [quantity, ht, hk]
    dsimp only
    cases hx : Numeral.read? t with
    | none =>
      refine Or.inr ⟨_, rfl, .noNumeral ?_ (Column.unread_refusal c t)⟩
      intro x h
      cases hx.symm.trans (Numeral.ofChars?_eq_some_iff.mpr h)
    | some x =>
      have hs := Numeral.ofChars?_eq_some_iff.mp hx
      by_cases hf : x.toFloat.isFinite
      · by_cases hb : x.toFloat < 0
        · exact Or.inr ⟨_, by simp [hf, hb], .belowZero hs hf hb⟩
        · exact Or.inl ⟨x.toFloat, by simp [hf, hb], x, hs, hf, hb⟩
      · exact Or.inr ⟨_, by simp [hf], .notFinite hs hf⟩

/-- A count that must not be zero where there is one. -/
def positiveOrAbsent (row : Row) (c : Column) : Except RowError (Option ℕ) := do
  match ← row.count max32 c with
  | none => return none
  | some n => return some (← positive c n)

theorem positiveCount_eq (row : Row) (c : Column) :
    row.positiveCount c = row.positiveOrAbsent c >>= required c := by
  unfold positiveCount positiveOrAbsent
  rcases row.count max32 c with e | _ | n
  · rfl
  · rfl
  · change positive c n = (positive c n >>= fun m => Pure.pure (some m)) >>= required c
    cases positive c n <;> rfl

theorem answers_positiveOrAbsent (hk : c.kind = .count 1 max32) :
    row.Answers c (row.positiveOrAbsent c) where
  absent ht := by
    rw [positiveOrAbsent, count_of_absent ht]
    rfl
  present ht := by
    unfold positiveOrAbsent
    rcases count_of_present hk ht with ⟨n, hn, hs, hle⟩ | ⟨e, hn, he⟩
    · rw [hn, hk]
      rcases n.eq_zero_or_pos with rfl | hp
      · exact Or.inr ⟨_, rfl, .zero hs Nat.one_pos⟩
      · refine Or.inl ⟨n, ?_, n, hs, hp, hle⟩
        change (positive c n >>= fun m => Pure.pure (some m)) = _
        rw [positive, if_neg hp.ne']
        rfl
    · rw [hn]
      exact Or.inr ⟨e, rfl, he⟩

theorem looksAt_positiveCount (hk : c.kind = .count 1 max32) (hm : c.isMandatory) :
    row.LooksAt (row.positiveCount c) [c] := by
  rw [positiveCount_eq]
  exact (answers_positiveOrAbsent hk).mandatory hm

theorem looksAt_duration : row.LooksAt row.duration [.duration] :=
  (answers_positiveOrAbsent rfl).optional rfl

theorem looksAt_implementation :
    row.LooksAt (required .implementation (row.text? .implementation)) [.implementation] := by
  cases ht : row.text? .implementation with
  | none => exact .of_error rfl (.missing ht rfl)
  | some t =>
    refine .of_ok rfl ?_
    rw [Accepts, ht]
    trivial

theorem trim_text (ht : row.text? c = some t) : Text.trim t = t := by
  obtain ⟨_, cell, _, _, rfl⟩ := cell_of_text ht
  exact Text.trim_trim cell

theorem looksAt_mode {file marker : String} : row.LooksAt (row.mode file marker) [.mode] := by
  cases ht : row.text? .mode with
  | none =>
    refine .of_ok (a := .ofFileName file marker) ?_ ?_
    · rw [mode, ht]
    · rw [Accepts, ht]
      rfl
  | some t =>
    cases hm : AllocMode.ofCell? t with
    | some m =>
      refine .of_ok (a := m) ?_ ?_
      · simp only [mode, ht, hm]
      · rw [Accepts, ht]
        rw [AllocMode.ofCell?_eq_some_iff, trim_text ht] at hm
        exact ⟨m, hm⟩
    | none =>
      refine .of_error (e := .unknownMode t) ?_ (.refused ht (.unknown fun m h => ?_))
      · simp only [mode, ht, hm]
      · rw [← trim_text ht, ← AllocMode.ofCell?_eq_some_iff, hm] at h
        cases h

theorem looksAt_latencyAt (p : Percentile) : row.LooksAt (row.latencyAt p) [.latency p] :=
  ((answers_quantity rfl).map _).optional rfl

theorem looksAt_latency : row.LooksAt row.latency (Percentile.all.map .latency) :=
  (looksAt_latencyAt .avg).bind fun _ => (looksAt_latencyAt .p50).bind fun _ =>
    (looksAt_latencyAt .p95).bind fun _ => (looksAt_latencyAt .p99).bind fun _ =>
      (looksAt_latencyAt .p999).bind fun _ => (looksAt_latencyAt .max).bind fun _ => .pure _

theorem looksAt_toRun (file marker : String) :
    row.LooksAt (row.toRun file marker) Column.readingOrder := by
  refine looksAt_implementation.bind fun _ => ?_
  refine (looksAt_positiveCount rfl rfl).bind fun _ => ?_
  refine (looksAt_positiveCount rfl rfl).bind fun _ => ?_
  refine ((answers_count rfl).mandatory rfl).bind_required fun _ => ?_
  refine ((answers_quantity rfl).mandatory rfl).bind_required fun _ => ?_
  refine looksAt_mode.bind fun _ => ?_
  refine looksAt_duration.bind fun _ => ?_
  refine looksAt_latency.bind fun _ => ?_
  refine ((answers_quantity rfl).optional rfl).bind fun _ => ?_
  exact ((answers_count rfl).optional rfl).bind fun _ => .pure _

end Row

end QueueBench
