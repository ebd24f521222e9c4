import Mathlib.Data.List.Induction
import QueueBench.Csv

/-! # Cutting tables at line ends

Behind a line feed outside quotes nothing of the table before it is left but the position.
Cells do not depend on positions, so the cells of what follows are those of a table of its
own. -/
namespace QueueBench.Csv

namespace Scan

/-- Two scans that only differ in their positions. -/
structure Alike (s t : Scan) : Prop where
  phase : s.phase = t.phase
  cell : s.cell = t.cell
  cells : s.cells = t.cells

theorem alike_pass (s : Scan) (b : UInt8) : Alike (s.pass b) s := ⟨rfl, rfl, rfl⟩

variable {s t : Scan} {b : UInt8}

theorem Alike.symm (h : Alike s t) : Alike t s := ⟨h.phase.symm, h.cell.symm, h.cells.symm⟩

theorem Alike.trans {u : Scan} (h : Alike s t) (h' : Alike t u) : Alike s u :=
  ⟨h.phase.trans h'.phase, h.cell.trans h'.cell, h.cells.trans h'.cells⟩

theorem Alike.record (h : Alike s t) : s.record.cells = t.record.cells := by
  simp only [Scan.record, endCell, h.cell, h.cells]

theorem Alike.bare (h : Alike s t) (b : UInt8) :
    Alike (s.bare b).1 (t.bare b).1 ∧
      (s.bare b).2.map Record.cells = (t.bare b).2.map Record.cells := by
  unfold Scan.bare
  split
  · exact ⟨⟨rfl, rfl, by simp only [endCell, h.cell, h.cells]⟩, rfl⟩
  · split
    · exact ⟨⟨rfl, rfl, rfl⟩, congrArg some h.record⟩
    · exact ⟨⟨rfl, by simp only [keep, h.cell], h.cells⟩, rfl⟩

theorem Alike.opening (h : Alike s t) (b : UInt8) :
    Alike (s.opening b).1 (t.opening b).1 ∧
      (s.opening b).2.map Record.cells = (t.opening b).2.map Record.cells := by
  unfold Scan.opening
  split
  · exact ⟨⟨rfl, h.cell, h.cells⟩, rfl⟩
  · exact h.bare b

theorem Alike.consume (h : Alike s t) (b : UInt8) :
    Alike (s.consume b).1 (t.consume b).1 ∧
      (s.consume b).2.map Record.cells = (t.consume b).2.map Record.cells := by
  have hk (p : Phase) : Alike (s.keep b p) (t.keep b p) :=
    ⟨rfl, by simp only [keep, h.cell], h.cells⟩
  have hg (p : Phase) : Alike (s.goto p) (t.goto p) := ⟨rfl, h.cell, h.cells⟩
  unfold Scan.consume
  rw [h.phase]
  cases t.phase with
  | gap =>
    dsimp only
    split
    · exact ⟨h, rfl⟩
    · exact h.opening b
  | afterReturn =>
    dsimp only
    split
    · exact ⟨hg _, rfl⟩
    · exact h.opening b
  | cellStart => exact h.opening b
  | plain => exact h.bare b
  | quoted =>
    dsimp only
    split
    · exact ⟨hg _, rfl⟩
    · exact ⟨hk _, rfl⟩
  | quoteSeen =>
    dsimp only
    split
    · exact ⟨hk _, rfl⟩
    · exact h.bare b

theorem Alike.step (h : Alike s t) (b : UInt8) :
    Alike (s.step b).1 (t.step b).1 ∧
      (s.step b).2.map Record.cells = (t.step b).2.map Record.cells :=
  ((alike_pass s b).trans (h.trans (alike_pass t b).symm)).consume b

def ended (s : Scan) : List UInt8 → List Record
  | [] => []
  | b :: bs => (s.step b).2.toList ++ (s.step b).1.ended bs

def after (s : Scan) (bs : List UInt8) : Scan := bs.foldl (fun s b => (s.step b).1) s

theorem records_cons (s : Scan) (b : UInt8) (bs : List UInt8) :
    s.records (b :: bs) = (s.step b).2.toList ++ (s.step b).1.records bs := by
  rw [records]
  cases hs : s.step b with
  | mk t r => cases r <;> rfl

theorem records_append (s : Scan) (xs ys : List UInt8) :
    s.records (xs ++ ys) = s.ended xs ++ (s.after xs).records ys := by
  induction xs generalizing s with
  | nil => rfl
  | cons b xs ih =>
    rw [List.cons_append, records_cons, ih, ended, List.append_assoc]
    rfl

def table (s : Scan) (bs : List UInt8) : List (List (List UInt8)) :=
  (s.records bs).map Record.cells

theorem Alike.table (h : Alike s t) (bs : List UInt8) : s.table bs = t.table bs := by
  unfold Scan.table
  induction bs generalizing s t with
  | nil =>
    unfold records finish
    rw [h.phase]
    cases t.phase <;> simp [h.record]
  | cons b bs ih =>
    obtain ⟨hs, hr⟩ := h.step b
    rw [records_cons, records_cons, List.map_append, List.map_append, ih hs,
      ← Option.toList_map, ← Option.toList_map, hr]

/-- Neither in quotes nor behind a carriage return, and nothing is kept between records. -/
def Unquoted (s : Scan) : Prop :=
  match s.phase with
  | .gap => s.cell = [] ∧ s.cells = []
  | .cellStart | .plain => True
  | .afterReturn | .quoted | .quoteSeen => False

theorem unquoted_bare (s : Scan) (hr : b ≠ carriageReturn) :
    (s.bare b).1.Unquoted ∧ (b = lineFeed → (s.bare b).1.phase = .gap) := by
  unfold bare
  split
  · rename_i hc
    refine ⟨trivial, fun hl => ?_⟩
    rw [hl] at hc
    cases hc
  · split
    · simp [endRecord, Unquoted, hr]
    · rename_i he
      refine ⟨trivial, fun hl => ?_⟩
      simp [endsRecord, hl] at he

theorem unquoted_step (h : s.Unquoted) (hq : b ≠ quote) (hr : b ≠ carriageReturn) :
    (s.step b).1.Unquoted ∧ (b = lineFeed → (s.step b).1.phase = .gap) := by
  have ho : ((s.pass b).opening b).1.Unquoted ∧
      (b = lineFeed → ((s.pass b).opening b).1.phase = .gap) := by
    rw [opening, if_neg hq]
    exact unquoted_bare _ hr
  unfold step consume
  unfold Unquoted at h
  rw [(alike_pass s b).phase]
  cases hp : s.phase with
  | gap =>
    rw [hp] at h
    dsimp only
    split
    · refine ⟨?_, fun _ => hp⟩
      unfold Unquoted
      rw [(alike_pass s b).phase, hp]
      exact h
    · exact ho
  | cellStart => exact ho
  | plain => exact unquoted_bare _ hr
  | afterReturn => simp [hp] at h
  | quoted => simp [hp] at h
  | quoteSeen => simp [hp] at h

theorem unquoted_after {bs : List UInt8} (h : s.Unquoted) (hq : quote ∉ bs)
    (hr : carriageReturn ∉ bs) :
    (s.after bs).Unquoted ∧ (bs.getLast? = some lineFeed → (s.after bs).phase = .gap) := by
  -- From the right, since the last byte alone tells whether a record is open.
  induction bs using List.reverseRecOn with
  | nil => exact ⟨h, by simp⟩
  | append_singleton bs b ih =>
    simp only [List.mem_append, List.mem_singleton, not_or] at hq hr
    obtain ⟨hu, hl⟩ := unquoted_step (ih hq.1 hr.1).1 (Ne.symm hq.2) (Ne.symm hr.2)
    have ha : s.after (bs ++ [b]) = ((s.after bs).step b).1 := by
      rw [after, List.foldl_append]
      rfl
    rw [ha]
    refine ⟨hu, fun hb => hl ?_⟩
    simpa using hb

end Scan

structure PlainLines (bs : List UInt8) : Prop where
  ends : bs = [] ∨ bs.getLast? = some lineFeed
  noQuote : quote ∉ bs
  noReturn : carriageReturn ∉ bs

def table (bs : List UInt8) : List (List (List UInt8)) := (Scan.fresh 0).table bs

theorem alike_after {bs : List UInt8} (h : PlainLines bs) :
    Scan.Alike ((Scan.fresh 0).after bs) (Scan.fresh 0) := by
  have hf : (Scan.fresh 0).Unquoted := ⟨rfl, rfl⟩
  rcases h.ends with rfl | hl
  · exact ⟨rfl, rfl, rfl⟩
  · obtain ⟨hu, hp⟩ := Scan.unquoted_after hf h.noQuote h.noReturn
    unfold Scan.Unquoted at hu
    rw [hp hl] at hu
    exact ⟨hp hl, hu.1, hu.2⟩

/-- Plain lines and what follows them are read independently of each other. -/
theorem table_append {xs : List UInt8} (h : PlainLines xs) (ys : List UInt8) :
    table (xs ++ ys) = table xs ++ table ys := by
  have ht (zs : List UInt8) : table (xs ++ zs) =
      ((Scan.fresh 0).ended xs).map Record.cells ++ table zs := by
    rw [table, Scan.table, Scan.records_append, List.map_append]
    exact congrArg _ ((alike_after h).table zs)
  have hn := ht []
  rw [List.append_nil, show table [] = [] from rfl, List.append_nil] at hn
  rw [ht, hn]

/-- The cells of a line, with the bytes of the cell under way last first. -/
def cellsOf (cell : List UInt8) : List UInt8 → List (List UInt8)
  | [] => [cell.reverse]
  | b :: bs => if b = comma then cell.reverse :: cellsOf [] bs else cellsOf (b :: cell) bs

theorem cellsOf_ne_nil (cell bs : List UInt8) : cellsOf cell bs ≠ [] := by
  induction bs generalizing cell with
  | nil => simp [cellsOf]
  | cons b bs ih =>
    unfold cellsOf
    split
    · simp
    · exact ih _

/-- A property of the line that survives cutting at commas holds of its cells. -/
theorem forall_mem_cellsOf (P : List UInt8 → Prop)
    (hP : ∀ xs ys, P (xs ++ comma :: ys) → P xs ∧ P ys) {cell bs : List UInt8}
    (h : P (cell.reverse ++ bs)) : ∀ c ∈ cellsOf cell bs, P c := by
  induction bs generalizing cell with
  | nil => simpa [cellsOf] using h
  | cons b bs ih =>
    unfold cellsOf
    split
    · rename_i hb
      rw [hb] at h
      obtain ⟨hc, hr⟩ := hP _ _ h
      intro c hm
      rcases List.mem_cons.mp hm with rfl | hm
      · exact hc
      · exact ih (by simpa using hr) c hm
    · exact ih (by simpa using h)

structure Unbroken (text : List UInt8) : Prop where
  noLineFeed : lineFeed ∉ text
  noReturn : carriageReturn ∉ text
  noQuote : quote ∉ text

structure Line (bs : List UInt8) : Prop where
  ne_nil : bs ≠ []
  noLineFeed : lineFeed ∉ bs
  noReturn : carriageReturn ∉ bs
  noQuote : quote ∉ bs

namespace Scan

variable {s : Scan} {b : UInt8}

theorem step_eq_bare (hs : s.phase = .plain ∨ s.phase = .cellStart ∨ s.phase = .gap)
    (hg : s.phase = .gap → endsRecord b = false) (hq : b ≠ quote) :
    s.step b = (s.pass b).bare b := by
  unfold step consume opening
  rw [(alike_pass s b).phase]
  rcases hs with hp | hp | hp <;> simp [hp, hq, hg]

theorem records_cons_none {t : Scan} (h : s.step b = (t, none)) (bs : List UInt8) :
    s.records (b :: bs) = t.records bs := by
  rw [records_cons, h]
  rfl

theorem records_cons_some {t : Scan} {r : Record} (h : s.step b = (t, some r))
    (bs : List UInt8) : s.records (b :: bs) = r :: t.records bs := by
  rw [records_cons, h]
  rfl

/-- A scan of a text without line ends, up to where the next byte may end the record. -/
structure ReadsText (s : Scan) (text : List UInt8) (t : Scan) : Prop where
  phase : t.phase = .plain ∨ t.phase = .cellStart
  start : t.start = s.start
  line : t.here.line = s.here.line
  cells : t.record.cells = s.cells.reverse ++ cellsOf s.cell text
  records : ∀ rest, s.records (text ++ rest) = t.records rest

theorem exists_readsText {text : List UInt8}
    (hs : s.phase = .plain ∨ s.phase = .cellStart ∨ s.phase = .gap)
    (hg : s.phase = .gap → text ≠ []) (hu : Unbroken text) : ∃ t, ReadsText s text t := by
  induction text generalizing s with
  | nil =>
    refine ⟨s, ?_, rfl, rfl, ?_, fun _ => rfl⟩
    · rcases hs with hp | hp | hp
      · exact Or.inl hp
      · exact Or.inr hp
      · exact (hg hp rfl).elim
    · simp [record, endCell, cellsOf]
  | cons b text ih =>
    obtain ⟨hl, hr, hq⟩ := hu
    simp only [List.mem_cons, not_or] at hl hr hq
    have hu : Unbroken text := ⟨hl.2, hr.2, hq.2⟩
    have he : endsRecord b = false := by simp [endsRecord, Ne.symm hl.1, Ne.symm hr.1]
    have hb := step_eq_bare hs (fun _ => he) (Ne.symm hq.1)
    have hline : (s.pass b).here.line = s.here.line := by simp [pass, Ne.symm hl.1]
    rw [bare] at hb
    by_cases hc : b = comma
    · rw [if_pos hc] at hb
      obtain ⟨t, ht⟩ := ih (s := (s.pass b).endCell) (Or.inr (Or.inl rfl)) nofun hu
      refine ⟨t, ht.phase, ht.start, ht.line.trans hline, ?_, ?_⟩
      · rw [ht.cells, cellsOf, if_pos hc]
        simp [endCell, pass]
      · intro rest
        rw [List.cons_append, records_cons_none hb, ht.records]
    · rw [if_neg hc, he] at hb
      obtain ⟨t, ht⟩ := ih (s := (s.pass b).keep b .plain) (Or.inl rfl) nofun hu
      refine ⟨t, ht.phase, ht.start, ht.line.trans hline, ?_, ?_⟩
      · rw [ht.cells, cellsOf, if_neg hc]
        rfl
      · intro rest
        rw [List.cons_append, records_cons_none hb, ht.records]

/-- Behind a text the first byte of a line end ends the record. -/
theorem ReadsText.step_ending {t : Scan} {text : List UInt8} (h : ReadsText s text t)
    (hb : endsRecord b) (hc : b ≠ comma) (hq : b ≠ quote) :
    t.step b = ((t.pass b).endRecord b, some t.record) := by
  have hp : t.phase = .plain ∨ t.phase = .cellStart ∨ t.phase = .gap := by
    rcases h.phase with hp | hp
    · exact Or.inl hp
    · exact Or.inr (Or.inl hp)
  have hg : t.phase = .gap → endsRecord b = false := by
    intro hg
    rcases h.phase with hp | hp <;> cases hp.symm.trans hg
  rw [step_eq_bare hp hg hq, bare, if_neg hc, if_pos hb]
  rfl

theorem table_line {bs : List UInt8}
    (hs : s.phase = .plain ∨ s.phase = .cellStart ∨ s.phase = .gap) (hg : s.phase = .gap → bs ≠ [])
    (hu : Unbroken bs) : s.table (bs ++ [lineFeed]) = [s.cells.reverse ++ cellsOf s.cell bs] := by
  obtain ⟨t, ht⟩ := exists_readsText hs hg hu
  have hend := ht.step_ending (b := lineFeed) rfl (by decide) (by decide)
  rw [table, ht.records, records_cons_some hend, List.map_cons, ht.cells]
  rfl

end Scan

theorem table_line {bs : List UInt8} (h : Line bs) :
    table (bs ++ [lineFeed]) = [cellsOf [] bs] :=
  Scan.table_line (Or.inr (Or.inr rfl)) (fun _ => h.ne_nil) ⟨h.noLineFeed, h.noReturn, h.noQuote⟩

end QueueBench.Csv
