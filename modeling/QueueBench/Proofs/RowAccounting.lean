import Mathlib.Data.List.Forall2
import QueueBench.Proofs.CsvPositions
import QueueBench.Proofs.Logged
import QueueBench.Proofs.Row
import QueueBench.Proofs.Text.Encoding

/-! # Accounting for rows

Only a header that is no text fails a file. Every record behind the header is a run, a
rejected row or a repeated header, and its place among its like is its place in the file. -/
namespace QueueBench

theorem forall₂_filterMap {α β : Type} (f : α → Option β) (as : List α) :
    List.Forall₂ (fun a b => f a = some b) (as.filter fun a => (f a).isSome) (as.filterMap f) := by
  induction as with
  | nil => exact .nil
  | cons a as ih =>
    cases h : f a with
    | none => simpa [h] using ih
    | some b => simpa [h] using ih

namespace RowOutcome

variable {o : RowOutcome}

theorem eq_run {r : Run} (h : o.run? = some r) : o = .run r := by
  cases o <;> simp_all [run?]

theorem eq_rejected {r : Rejection} (h : o.rejection? = some r) : o = .rejected r := by
  cases o <;> simp_all [rejection?]

theorem eq_repeatedHeader (h : o.isRepeatedHeader) : ∃ line, o = .repeatedHeader line := by
  cases o <;> simp_all [isRepeatedHeader]

end RowOutcome

namespace ResultFile

variable {source marker : String}

section Header

theorem decodeCells_eq_error_iff {cells : List (List UInt8)} (i : ℕ) :
    (∃ e, decodeCells i cells = .error e) ↔ ∃ cell ∈ cells, ∀ s, Text.encode s ≠ cell := by
  induction cells generalizing i with
  | nil => simp [decodeCells]
  | cons cell cells ih =>
    simp only [List.mem_cons, exists_eq_or_imp, ← ih (i + 1), decodeCells]
    have hok {s : String} : Text.encode s = cell ↔ Text.decode cell = .ok s :=
      Text.decode_eq_ok_iff.symm
    cases h : Text.decode cell with
    | error index => simp [hok, h, Except.mapError, bind, Except.bind]
    | ok s =>
      cases decodeCells (i + 1) cells <;>
        simp [hok, h, Except.mapError, bind, Except.bind, pure, Except.pure]

/-- The header alone decides whether a file can be read. -/
theorem ofBytes_eq_error_iff {bytes : List UInt8} :
    (∃ e, ofBytes source marker bytes = .error e) ↔
      ∃ header, (Csv.records bytes).head? = some header ∧
        ∃ cell ∈ header.cells, ∀ s, Text.encode s ≠ cell := by
  rw [ofBytes_eq]
  cases (Csv.records bytes).head? with
  | none => simp [readSchema]
  | some header =>
    simp only [Option.some.injEq, exists_eq_left', ← decodeCells_eq_error_iff 0, readSchema,
      textCells]
    cases decodeCells 0 header.cells <;> simp [Except.mapError, Except.map]

end Header

/-- What a row can become. -/
theorem readRow_cases (schema : Schema) (source marker : String) (r : Csv.Record) :
    (∃ run, readRow schema source marker r = .run run ∧ run.source = source) ∨
      (∃ cause, readRow schema source marker r = .rejected ⟨source, r.position.line, cause⟩) ∨
      readRow schema source marker r = .repeatedHeader r.position.line := by
  unfold readRow
  split
  · exact Or.inr (Or.inl ⟨_, rfl⟩)
  · dsimp only
    split
    · exact Or.inr (Or.inr rfl)
    · split
      · rename_i run h
        exact Or.inl ⟨run, rfl, (Row.reads_of_toRun h).source⟩
      · exact Or.inr (Or.inl ⟨_, rfl⟩)

variable {schema : Schema} {r : Csv.Record}

theorem source_of_readRow {run : Run} (h : readRow schema source marker r = .run run) :
    run.source = source := by
  rcases readRow_cases schema source marker r with ⟨_, he, hs⟩ | ⟨_, he⟩ | he
  · obtain rfl := RowOutcome.run.inj (he.symm.trans h)
    exact hs
  · cases he.symm.trans h
  · cases he.symm.trans h

theorem position_of_readRow {rejection : Rejection}
    (h : readRow schema source marker r = .rejected rejection) :
    rejection.file = source ∧ rejection.line = r.position.line := by
  rcases readRow_cases schema source marker r with ⟨_, he, _⟩ | ⟨_, he⟩ | he
  · cases he.symm.trans h
  · obtain rfl := RowOutcome.rejected.inj (he.symm.trans h)
    exact ⟨rfl, rfl⟩
  · cases he.symm.trans h

/-- Every row falls under one of the three kinds, and no row under two. -/
theorem perm_filter_outcome (out : Csv.Record → RowOutcome) (rows : List Csv.Record) :
    rows.Perm ((rows.filter fun r => (out r).run?.isSome) ++
      (rows.filter fun r => (out r).rejection?.isSome) ++
      rows.filter fun r => (out r).isRepeatedHeader) := by
  induction rows with
  | nil => exact .nil
  | cons r rows ih =>
    cases h : out r with
    | run run =>
      simpa [h, RowOutcome.run?, RowOutcome.rejection?, RowOutcome.isRepeatedHeader] using ih
    | rejected rejection =>
      simp only [List.append_assoc] at ih
      simpa [h, RowOutcome.run?, RowOutcome.rejection?, RowOutcome.isRepeatedHeader] using
        (ih.cons r).trans List.perm_middle.symm
    | repeatedHeader line =>
      simpa [h, RowOutcome.run?, RowOutcome.rejection?, RowOutcome.isRepeatedHeader] using
        (ih.cons r).trans List.perm_middle.symm

/-- The records that became runs, rejected rows and repeated headers, the first two in the order
of the file. -/
structure Accounts (f : ResultFile) (marker : String)
    (rows read rejected repeated : List Csv.Record) : Prop where
  perm : rows.Perm (read ++ rejected ++ repeated)
  nodup : (read ++ rejected ++ repeated).Nodup
  read_sublist : read.Sublist rows
  rejected_sublist : rejected.Sublist rows
  runs : List.Forall₂ (fun r run => readRow f.schema f.source marker r = .run run) read f.runs
  rejections : List.Forall₂
    (fun r rejection => readRow f.schema f.source marker r = .rejected rejection)
    rejected f.rejections
  headers : ∀ r ∈ repeated, ∃ line, readRow f.schema f.source marker r = .repeatedHeader line
  length_repeated : repeated.length = f.repeatedHeaders

theorem exists_accounts {f : ResultFile} {rows : List Csv.Record} (hd : rows.Nodup)
    (h : f.rows = rows.map (readRow f.schema f.source marker)) :
    ∃ read rejected repeated, f.Accounts marker rows read rejected repeated := by
  set out := readRow f.schema f.source marker
  have hp := perm_filter_outcome out rows
  refine ⟨_, _, _, hp, hp.nodup_iff.mp hd, List.filter_sublist, List.filter_sublist, ?_, ?_, ?_, ?_⟩
  · rw [runs, h, List.filterMap_map]
    refine (forall₂_filterMap (RowOutcome.run? ∘ out) rows).imp ?_
    exact fun _ _ => RowOutcome.eq_run
  · rw [rejections, h, List.filterMap_map]
    refine (forall₂_filterMap (RowOutcome.rejection? ∘ out) rows).imp ?_
    exact fun _ _ => RowOutcome.eq_rejected
  · intro r hr
    exact RowOutcome.eq_repeatedHeader (List.mem_filter.mp hr).2
  · rw [repeatedHeaders, h, List.countP_map, List.countP_eq_length_filter]
    rfl

theorem Accounts.length_eq {f : ResultFile} {rows read rejected repeated : List Csv.Record}
    (h : f.Accounts marker rows read rejected repeated) :
    f.runs.length + f.rejections.length + f.repeatedHeaders = rows.length := by
  rw [← h.runs.length_eq, ← h.rejections.length_eq, ← h.length_repeated, h.perm.length_eq,
    List.length_append, List.length_append]

theorem ofBytes_eq_ok {bytes : List UInt8} {f : ResultFile}
    (h : ofBytes source marker bytes = .ok f) :
    f.source = source ∧ readSchema (Csv.records bytes).head? = .ok f.schema ∧
      f.rows = (Csv.records bytes).tail.map (readRow f.schema f.source marker) := by
  rw [ofBytes_eq] at h
  split at h
  · cases h
  · rename_i schema hs
    obtain rfl := Except.ok.inj h
    exact ⟨rfl, hs, rfl⟩

section Rows

variable {f : ResultFile} {rows : List Csv.Record}

theorem source_of_mem_runs (h : f.rows = rows.map (readRow f.schema f.source marker)) {run : Run}
    (hr : run ∈ f.runs) : run.source = f.source := by
  rw [runs, h, List.filterMap_map] at hr
  obtain ⟨r, _, he⟩ := List.mem_filterMap.mp hr
  exact source_of_readRow (RowOutcome.eq_run he)

theorem file_of_mem_rejections (h : f.rows = rows.map (readRow f.schema f.source marker))
    {rejection : Rejection} (hr : rejection ∈ f.rejections) : rejection.file = f.source := by
  rw [rejections, h, List.filterMap_map] at hr
  obtain ⟨r, _, he⟩ := List.mem_filterMap.mp hr
  exact (position_of_readRow (RowOutcome.eq_rejected he)).1

/-- Rejected rows are reported by ascending lines. -/
theorem pairwise_rejections (h : f.rows = rows.map (readRow f.schema f.source marker))
    (hp : rows.Pairwise fun a b => a.position.Before b.position) :
    f.rejections.Pairwise fun a b => a.line ≤ b.line := by
  rw [rejections, h, List.filterMap_map]
  refine hp.filterMap _ ?_
  intro a b hab x hx y hy
  rw [(position_of_readRow (RowOutcome.eq_rejected hx)).2,
    (position_of_readRow (RowOutcome.eq_rejected hy)).2]
  exact hab.line

end Rows

/-- Whatever the bytes are, only the header can fail a file, and each record behind the header
is accounted for once. -/
theorem ofBytes_accounts (source marker : String) (bytes : List UInt8) :
    ((∃ e, ofBytes source marker bytes = .error e) ↔
      ∃ header, (Csv.records bytes).head? = some header ∧
        ∃ cell ∈ header.cells, ∀ s, Text.encode s ≠ cell) ∧
    ∀ f, ofBytes source marker bytes = .ok f →
      readSchema (Csv.records bytes).head? = .ok f.schema ∧ f.source = source ∧
      (∃ read rejected repeated,
        f.Accounts marker (Csv.records bytes).tail read rejected repeated) ∧
      f.runs.length + f.rejections.length + f.repeatedHeaders =
        (Csv.records bytes).tail.length ∧
      (∀ run ∈ f.runs, run.source = source) ∧
      (∀ rejection ∈ f.rejections, rejection.file = source) ∧
      f.rejections.Pairwise fun a b => a.line ≤ b.line := by
  refine ⟨ofBytes_eq_error_iff, ?_⟩
  intro f h
  obtain ⟨rfl, hschema, hrows⟩ := ofBytes_eq_ok h
  have hsub := List.tail_sublist (Csv.records bytes)
  obtain ⟨read, rejected, repeated, ha⟩ :=
    exists_accounts ((Csv.nodup_records bytes).sublist hsub) hrows
  refine ⟨hschema, rfl, ⟨read, rejected, repeated, ha⟩, ha.length_eq, ?_, ?_, ?_⟩
  · exact fun run hr => source_of_mem_runs hrows hr
  · exact fun rejection hr => file_of_mem_rejections hrows hr
  · exact pairwise_rejections hrows ((Csv.pairwise_records bytes).sublist hsub)

/-- A header, the header again, a blank line, a byte that is no text, a stray quote, and a quote
that never ends. -/
def mixedBytes : List UInt8 :=
  [0x70, 0x2C, 0x63, 0x0A, 0x50, 0x2C, 0x43, 0x0D, 0x0A, 0x0A, 0xFF, 0x0A,
    0x61, 0x22, 0x2C, 0x31, 0x0A, 0x22, 0x0A, 0x70]

theorem ofBytes_accounts_mixed :
    ∃ f, ofBytes "mixed.csv" "pool" mixedBytes = .ok f ∧
      f.runs.length + f.rejections.length + f.repeatedHeaders = 4 ∧
      ∀ rejection ∈ f.rejections, rejection.file = "mixed.csv" := by
  obtain ⟨hfails, haccounts⟩ := ofBytes_accounts "mixed.csv" "pool" mixedBytes
  cases h : ofBytes "mixed.csv" "pool" mixedBytes with
  | error e =>
    obtain ⟨header, hh, cell, hc, hs⟩ := hfails.mp ⟨e, h⟩
    obtain rfl := Option.some.inj ((show (Csv.records mixedBytes).head? =
      some ⟨⟨0, 1, 0⟩, [[0x70], [0x63]]⟩ by decide).symm.trans hh)
    have hp : Text.encode "p" = [0x70] := Text.decode_eq_ok_iff.mp (by decide)
    have hc' : Text.encode "c" = [0x63] := Text.decode_eq_ok_iff.mp (by decide)
    simp only [List.mem_cons, List.not_mem_nil, or_false] at hc
    rcases hc with rfl | rfl
    · exact (hs _ hp).elim
    · exact (hs _ hc').elim
  | ok f =>
    obtain ⟨_, _, _, hl, _, hr, _⟩ := haccounts f h
    exact ⟨f, rfl, hl, hr⟩

end ResultFile

end QueueBench
