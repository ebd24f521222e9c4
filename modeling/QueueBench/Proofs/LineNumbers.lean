import QueueBench.Proofs.RowAccounting

/-! # Line numbers of rejected rows

In a text without quotes every line that is not blank is a row. A record stands where the record
before it ended, which is in front of a line feed that follows a carriage return, and in front of
all blank lines. So a rejected row is reported with the number of its line only when the line
above it is a row too and ends in a line feed alone. -/
namespace QueueBench.Csv

inductive LineEnd where
  | feed
  | returnFeed
  deriving DecidableEq

def LineEnd.bytes : LineEnd → List UInt8
  | feed => [lineFeed]
  | returnFeed => [carriageReturn, lineFeed]

structure TextLine where
  text : List UInt8
  ending : LineEnd
  unbroken : Unbroken text

def TextLine.bytes (l : TextLine) : List UInt8 := l.text ++ l.ending.bytes

/-- Lines, and what follows the last line end. -/
structure TextTable where
  lines : List TextLine
  last : List UInt8
  unbroken : Unbroken last

/-- A line that is not blank, and the bytes in front of it. -/
structure TextRow where
  before : List UInt8
  text : List UInt8
  ending : Option LineEnd

namespace TextRow

def line (r : TextRow) : ℕ := 1 + r.before.count lineFeed

/-- The number of the line that has begun where the record of the row ends. -/
def endLine (r : TextRow) : ℕ := r.line + if r.ending = some .feed then 1 else 0

def cells (r : TextRow) : List (List UInt8) := cellsOf [] r.text

end TextRow

namespace TextTable

def bytes (t : TextTable) : List UInt8 := t.lines.flatMap TextLine.bytes ++ t.last

def rowsFrom (before last : List UInt8) : List TextLine → List TextRow
  | [] => if last = [] then [] else [⟨before, last, none⟩]
  | l :: ls =>
    if l.text = [] then rowsFrom (before ++ l.bytes) last ls
    else ⟨before, l.text, some l.ending⟩ :: rowsFrom (before ++ l.bytes) last ls

def rows (t : TextTable) : List TextRow := rowsFrom [] t.last t.lines

def dataRows (t : TextTable) : List (TextRow × TextRow) := t.rows.zip t.rows.tail

end TextTable

theorem count_bytes (l : TextLine) : l.bytes.count lineFeed = 1 := by
  have ht : l.text.count lineFeed = 0 := List.count_eq_zero.mpr l.unbroken.noLineFeed
  rw [TextLine.bytes, List.count_append, ht]
  cases l.ending <;> decide

namespace Scan

variable {s t : Scan} {n : ℕ} {text : List UInt8}

structure AtLine (s : Scan) (n : ℕ) : Prop where
  phase : s.phase = .gap
  cell : s.cell = []
  cells : s.cells = []
  line : s.here.line = n

theorem AtLine.blank (h : s.AtLine n) (e : LineEnd) :
    ∃ u : Scan, u.AtLine (n + 1) ∧ u.start = s.start ∧
      ∀ rest, s.records (e.bytes ++ rest) = u.records rest := by
  have hstep {s : Scan} (hp : s.phase = .gap) {b : UInt8} (hb : endsRecord b) :
      s.step b = (s.pass b, none) := by
    rw [step, consume, (alike_pass s b).phase, hp]
    exact if_pos hb
  cases e with
  | feed =>
    refine ⟨s.pass lineFeed, ⟨h.phase, h.cell, h.cells, ?_⟩, rfl, fun rest => ?_⟩
    · rw [← h.line]
      rfl
    · exact records_cons_none (hstep h.phase rfl) rest
  | returnFeed =>
    refine ⟨(s.pass carriageReturn).pass lineFeed, ⟨h.phase, h.cell, h.cells, ?_⟩, rfl,
      fun rest => ?_⟩
    · rw [← h.line]
      rfl
    · refine (records_cons_none (b := carriageReturn) (hstep h.phase rfl) _).trans ?_
      exact records_cons_none (hstep (s := s.pass carriageReturn) h.phase rfl) rest

/-- The first byte of a line end ends the record. A line feed is passed by then, one that follows
a carriage return is not. -/
theorem ReadsText.ended (h : ReadsText s text t) (e : LineEnd) :
    ∃ u : Scan, u.AtLine (s.here.line + 1) ∧
      u.start.line = s.here.line + (if e = .feed then 1 else 0) ∧
      ∀ rest, s.records (text ++ (e.bytes ++ rest)) = t.record :: u.records rest := by
  have hline := h.line
  cases e with
  | feed =>
    refine ⟨(t.pass lineFeed).endRecord lineFeed, ⟨rfl, rfl, rfl, ?_⟩, ?_, fun rest => ?_⟩
    · rw [← hline]
      rfl
    · rw [← hline]
      rfl
    · rw [h.records]
      exact records_cons_some (h.step_ending rfl (by decide) (by decide)) rest
  | returnFeed =>
    refine ⟨(((t.pass carriageReturn).endRecord carriageReturn).pass lineFeed).goto .gap,
      ⟨rfl, rfl, rfl, ?_⟩, ?_, fun rest => ?_⟩
    · rw [← hline]
      rfl
    · rw [← hline]
      rfl
    · rw [h.records]
      refine (records_cons_some (h.step_ending rfl (by decide) (by decide)) _).trans ?_
      exact congrArg _ (records_cons_none rfl rest)

theorem ReadsText.finished (h : ReadsText s text t) : s.records text = [t.record] := by
  have hr := h.records []
  rw [List.append_nil] at hr
  rw [hr, Scan.records, finish]
  rcases h.phase with hp | hp <;> rw [hp] <;> rfl

end Scan

/-- The rows with the numbers that their records carry: that of the first record, and behind it
where the record before ended. -/
def numbered (n : ℕ) : List TextRow → List (ℕ × TextRow)
  | [] => []
  | r :: rs => (n, r) :: numbered r.endLine rs

theorem numbered_eq_map_zip (above : TextRow) (rs : List TextRow) :
    numbered above.endLine rs = ((above :: rs).zip rs).map fun x => (x.1.endLine, x.2) := by
  induction rs generalizing above with
  | nil => rfl
  | cons r rs ih => rw [numbered, ih]; rfl

def Record.Of (r : Record) (x : ℕ × TextRow) : Prop :=
  r.position.line = x.1 ∧ r.cells = x.2.cells

theorem records_of_rows {s : Scan} (lines : List TextLine) {last before : List UInt8}
    (hu : Unbroken last) (hs : s.AtLine (1 + before.count lineFeed)) :
    List.Forall₂ Record.Of
      (s.records (lines.flatMap TextLine.bytes ++ last))
      (numbered s.start.line (TextTable.rowsFrom before last lines)) := by
  -- On the lines, for every scan that stands at the start of a line: only where its record would
  -- start differs from row to row.
  induction lines generalizing s before with
  | nil =>
    rw [TextTable.rowsFrom]
    by_cases hl : last = []
    · subst hl
      rw [if_pos rfl, numbered, List.flatMap_nil, List.append_nil, Scan.records, Scan.finish,
        hs.phase]
      exact .nil
    · obtain ⟨t, ht⟩ := Scan.exists_readsText (Or.inr (Or.inr hs.phase)) (fun _ => hl) hu
      have hc : t.record.cells = cellsOf [] last := by
        rw [ht.cells, hs.cell, hs.cells]
        rfl
      rw [if_neg hl, List.flatMap_nil, List.nil_append, ht.finished]
      exact .cons ⟨congrArg Position.line ht.start, hc⟩ .nil
  | cons l lines ih =>
    have hn : 1 + before.count lineFeed + 1 = 1 + (before ++ l.bytes).count lineFeed := by
      rw [List.count_append, count_bytes, Nat.add_assoc]
    rw [TextTable.rowsFrom, List.flatMap_cons, List.append_assoc]
    by_cases hl : l.text = []
    · obtain ⟨u, hu, hstart, hrec⟩ := hs.blank l.ending
      have hb : l.bytes = l.ending.bytes := by rw [TextLine.bytes, hl, List.nil_append]
      rw [if_pos hl, hb, hrec, ← hstart, ← hb]
      exact ih (hn ▸ hu)
    · obtain ⟨t, ht⟩ := Scan.exists_readsText (Or.inr (Or.inr hs.phase)) (fun _ => hl) l.unbroken
      obtain ⟨u, hu, hstart, hrec⟩ := ht.ended l.ending
      have hc : t.record.cells = cellsOf [] l.text := by
        rw [ht.cells, hs.cell, hs.cells]
        rfl
      rw [hs.line] at hu hstart
      have hend : u.start.line = TextRow.endLine ⟨before, l.text, some l.ending⟩ := by
        rw [hstart, TextRow.endLine, TextRow.line]
        simp
      rw [if_neg hl, numbered, ← hend, TextLine.bytes, List.append_assoc, hrec]
      exact .cons ⟨congrArg Position.line ht.start, hc⟩ (ih (hn ▸ hu))

theorem rowsFrom_ascending (lines : List TextLine) (before last : List UInt8) :
    (∀ r ∈ TextTable.rowsFrom before last lines, 1 + before.count lineFeed ≤ r.line) ∧
      (TextTable.rowsFrom before last lines).Pairwise fun r r' => r.line < r'.line := by
  induction lines generalizing before with
  | nil =>
    rw [TextTable.rowsFrom]
    split
    · simp
    · simp [TextRow.line]
  | cons l lines ih =>
    obtain ⟨hle, hlt⟩ := ih (before ++ l.bytes)
    rw [List.count_append, count_bytes] at hle
    rw [TextTable.rowsFrom]
    split
    · exact ⟨fun r hr => (Nat.le_succ _).trans (hle r hr), hlt⟩
    · constructor
      · intro r hr
        rcases List.mem_cons.mp hr with rfl | hr
        · exact le_rfl
        · exact (Nat.le_succ _).trans (hle r hr)
      · exact List.pairwise_cons.mpr ⟨fun r hr => hle r hr, hlt⟩

theorem exists_after (lines : List TextLine) {before last : List UInt8} {r : TextRow}
    (hr : r ∈ TextTable.rowsFrom before last lines) :
    ∃ after, before ++ (lines.flatMap TextLine.bytes ++ last) = r.before ++ (r.text ++ after) := by
  induction lines generalizing before with
  | nil =>
    rw [TextTable.rowsFrom] at hr
    split at hr
    · cases hr
    · rw [List.mem_singleton.mp hr]
      exact ⟨[], by simp⟩
  | cons l lines ih =>
    have hcut : before ++ ((l :: lines).flatMap TextLine.bytes ++ last) =
        before ++ l.bytes ++ (lines.flatMap TextLine.bytes ++ last) := by
      rw [List.flatMap_cons, List.append_assoc, List.append_assoc]
    rw [TextTable.rowsFrom] at hr
    rw [hcut]
    split at hr
    · exact ih hr
    · rcases List.mem_cons.mp hr with rfl | hr
      · refine ⟨l.ending.bytes ++ (lines.flatMap TextLine.bytes ++ last), ?_⟩
        simp [TextLine.bytes]
      · exact ih hr

theorem rel_of_mem_zip_tail {α : Type} {R : α → α → Prop} {as : List α} (h : as.Pairwise R)
    {x : α × α} (hx : x ∈ as.zip as.tail) : R x.1 x.2 := by
  cases as with
  | nil => cases hx
  | cons a as =>
    induction as generalizing a with
    | nil => cases hx
    | cons b as ih =>
      rw [List.pairwise_cons] at h
      rcases List.mem_cons.mp hx with rfl | hx
      · exact h.1 b List.mem_cons_self
      · exact ih b h.2 hx

/-- The record of a row stands on its line only directly below a row with a line feed alone. -/
theorem endLine_eq_line_iff {t : TextTable} {x : TextRow × TextRow} (hx : x ∈ t.dataRows) :
    x.1.endLine = x.2.line ↔ x.1.ending = some .feed ∧ x.2.line = x.1.line + 1 := by
  have hlt : x.1.line < x.2.line := rel_of_mem_zip_tail (rowsFrom_ascending t.lines [] t.last).2 hx
  unfold TextRow.endLine
  by_cases he : x.1.ending = some .feed
  · simp only [he, ↓reduceIte, true_and]
    exact eq_comm
  · simp only [he, ↓reduceIte, false_and, iff_false]
    omega

theorem records_table (t : TextTable) (hm : ¬ byteOrderMark <+: t.bytes) :
    List.Forall₂ Record.Of (records t.bytes) (numbered 1 t.rows) := by
  have hp : byteOrderMark.isPrefixOf t.bytes = false := by
    rw [← Bool.not_eq_true, List.isPrefixOf_iff_prefix]
    exact hm
  rw [records, hp]
  exact records_of_rows t.lines t.unbroken ⟨rfl, rfl, rfl, rfl⟩

/-- Each record behind the header says where the row above it ended. -/
theorem tail_records_table (t : TextTable) (hm : ¬ byteOrderMark <+: t.bytes) :
    List.Forall₂ (fun r x => r.position.line = x.1.endLine ∧ r.cells = x.2.cells)
      (records t.bytes).tail t.dataRows := by
  have h := records_table t hm
  rw [TextTable.dataRows]
  generalize records t.bytes = rs at h ⊢
  cases hr : t.rows with
  | nil =>
    rw [hr] at h
    cases h
    exact .nil
  | cons header rows =>
    rw [hr, numbered, numbered_eq_map_zip] at h
    cases h with
    | cons _ h => exact List.forall₂_map_right_iff.mp h

end QueueBench.Csv

namespace QueueBench

theorem exists_sublist_of_forall₂ {α β γ : Type} {R : α → β → Prop} {f : α → Option γ}
    {as : List α} {bs : List β} (h : List.Forall₂ R as bs) :
    ∃ cs, cs.Sublist bs ∧
      List.Forall₂ (fun b c => ∃ a, R a b ∧ f a = some c) cs (as.filterMap f) := by
  induction h with
  | nil => exact ⟨[], .slnil, .nil⟩
  | @cons a b as bs hab _ ih =>
    obtain ⟨cs, hs, hc⟩ := ih
    cases hf : f a with
    | none => exact ⟨cs, hs.cons b, by rwa [List.filterMap_cons_none hf]⟩
    | some c =>
      refine ⟨b :: cs, hs.cons_cons b, ?_⟩
      rw [List.filterMap_cons_some hf]
      exact .cons ⟨a, hab, hf⟩ hc

open Csv (TextTable TextRow byteOrderMark)

namespace ResultFile

variable {source marker : String}

/-- The row is rejected with this report, wherever its record is taken to stand. -/
def Rejects (f : ResultFile) (marker : String) (row : TextRow) (r : Rejection) : Prop :=
  ∃ p, readRow f.schema f.source marker ⟨p, row.cells⟩ = .rejected r

/-- Each report of a rejected row gives the number of the line on which the row stands. -/
def LinesAreRight (f : ResultFile) (marker : String) (t : TextTable) : Prop :=
  ∃ rejected : List (TextRow × TextRow), rejected.Sublist t.dataRows ∧
    List.Forall₂ (fun x r => f.Rejects marker x.2 r ∧ r.line = x.2.line) rejected f.rejections

/-- Each rejected row is reported with the line on which the row above it ended. That is its own
line just when neither a blank line nor a carriage return stands between the two. -/
theorem rejection_line_iff (source marker : String) {t : TextTable}
    (hm : ¬ byteOrderMark <+: t.bytes) {f : ResultFile}
    (h : ofBytes source marker t.bytes = .ok f) :
    (∀ row ∈ t.rows, ∃ after, t.bytes = row.before ++ (row.text ++ after)) ∧
    (∃ rejected : List (TextRow × TextRow), rejected.Sublist t.dataRows ∧
      List.Forall₂ (fun x r => f.Rejects marker x.2 r ∧ r.line = x.1.endLine ∧
        (r.line = x.2.line ↔ x.1.ending = some .feed ∧ x.2.line = x.1.line + 1))
        rejected f.rejections) ∧
    ((∀ x ∈ t.dataRows, x.1.ending = some .feed ∧ x.2.line = x.1.line + 1) →
      f.LinesAreRight marker t) := by
  obtain ⟨_, _, hrows⟩ := ofBytes_eq_ok h
  obtain ⟨rejected, hsub, hrejected⟩ := exists_sublist_of_forall₂
    (f := RowOutcome.rejection? ∘ readRow f.schema f.source marker) (Csv.tail_records_table t hm)
  have hdata : ∀ x ∈ rejected, x ∈ t.dataRows := fun x hx => hsub.subset hx
  have hall : List.Forall₂ (fun x r => x ∈ t.dataRows ∧ f.Rejects marker x.2 r ∧
      r.line = x.1.endLine) rejected f.rejections := by
    rw [rejections, hrows, List.filterMap_map]
    refine ((List.forall₂_and_left _ _).mpr ⟨hdata, hrejected⟩).imp ?_
    rintro x r ⟨hx, record, ⟨hline, hcells⟩, hr⟩
    have hread := RowOutcome.eq_rejected hr
    refine ⟨hx, ⟨record.position, ?_⟩, (position_of_readRow hread).2.trans hline⟩
    rw [← hcells]
    exact hread
  refine ⟨fun row hr => Csv.exists_after t.lines hr, ⟨rejected, hsub, hall.imp ?_⟩, fun hfeed => ?_⟩
  · rintro x r ⟨hx, hr, hl⟩
    refine ⟨hr, hl, ?_⟩
    rw [hl]
    exact Csv.endLine_eq_line_iff hx
  · refine ⟨rejected, hsub, hall.imp ?_⟩
    rintro x r ⟨hx, hr, hl⟩
    exact ⟨hr, hl.trans ((Csv.endLine_eq_line_iff hx).mpr (hfeed x hx))⟩

def feedTable : TextTable where
  lines := [⟨[0x70], .feed, by decide, by decide, by decide⟩,
    ⟨[0x78], .feed, by decide, by decide, by decide⟩,
    ⟨[], .feed, by decide, by decide, by decide⟩]
  last := [0x79]
  unbroken := ⟨by decide, by decide, by decide⟩

theorem rejection_line_iff_feeds :
    ∃ f r r', ofBytes "a.csv" "" feedTable.bytes = .ok f ∧ f.rejections = [r, r'] ∧
      feedTable.dataRows.map (fun x => x.2.line) = [2, 4] ∧ r.line = 2 ∧ r'.line = 3 := by
  let row (line : ℕ) : Rejection := ⟨"a.csv", line, .missingField .implementation⟩
  have h : ofBytes "a.csv" "" feedTable.bytes =
      .ok ⟨"a.csv", ⟨["p"]⟩, [.rejected (row 2), .rejected (row 3)]⟩ := by decide +kernel
  obtain ⟨_, ⟨rejected, hsub, hall⟩, _⟩ := rejection_line_iff "a.csv" "" (by decide) h
  obtain ⟨x, _, ⟨_, hx, _⟩, hrest, rfl⟩ := List.forall₂_cons_right_iff.mp hall
  obtain ⟨x', _, ⟨_, hx', _⟩, hnil, rfl⟩ := List.forall₂_cons_right_iff.mp hrest
  obtain rfl := List.forall₂_nil_right_iff.mp hnil
  have hd := congrArg (List.map fun x => x.1.endLine) (hsub.eq_of_length rfl)
  have he : feedTable.dataRows.map (fun x => x.1.endLine) = [2, 3] := by decide
  rw [he] at hd
  obtain ⟨he, hd⟩ := List.cons.inj hd
  exact ⟨_, _, _, h, rfl, by decide, hx.trans he, hx'.trans (List.cons.inj hd).1⟩

def returnTable : TextTable where
  lines := [⟨[0x70], .returnFeed, by decide, by decide, by decide⟩,
    ⟨[0x78], .returnFeed, by decide, by decide, by decide⟩]
  last := []
  unbroken := ⟨by decide, by decide, by decide⟩

/-- The only row stands on the second line and is reported with the first. -/
theorem line_wrong_behind_return :
    ∃ f, ofBytes "a.csv" "" returnTable.bytes = .ok f ∧ ¬ f.LinesAreRight "" returnTable := by
  refine ⟨⟨"a.csv", ⟨["p"]⟩, [.rejected ⟨"a.csv", 1, .missingField .implementation⟩]⟩,
    by decide +kernel, ?_⟩
  rintro ⟨rejected, hsub, hall⟩
  obtain ⟨x, _, ⟨_, hline⟩, _, rfl⟩ := List.forall₂_cons_right_iff.mp hall
  have hx : ∀ x ∈ returnTable.dataRows, x.2.line = 2 := by decide
  exact absurd (hline.trans (hx x (hsub.subset List.mem_cons_self))) (by decide)

end ResultFile

end QueueBench
