import QueueBench.Proofs.Number.Spelling
import QueueBench.Proofs.Row
import QueueBench.Proofs.RowAccounting
import QueueBench.Proofs.Schema
import QueueBench.Proofs.Text.Blank

/-! # Repeated headers hide no run

A row that repeats the header has the name of the producer column where a count should be, or
there is no such column at all. Either way it is no run, and looking for repeated headers takes
no run away. -/
namespace QueueBench

theorem Number.sign_or_digit_of_count {limit n : ℕ} {value : String}
    (h : count? limit value = some n) :
    ∃ c cs, value.toList = c :: cs ∧ (c = '+' ∨ c.isDigit) := by
  obtain ⟨⟨ds, hs, hd, -⟩, -⟩ := count?_eq_some_iff.mp h
  rcases hs with hs | hs
  · obtain ⟨c, cs, rfl⟩ := List.exists_cons_of_ne_nil hd.ne_nil
    exact ⟨c, cs, hs, Or.inr (hd.isDigit c List.mem_cons_self)⟩
  · exact ⟨'+', ds, hs, Or.inl rfl⟩

theorem Text.toLower_of_sign_or_digit {c : Char} (h : c = '+' ∨ c.isDigit) : c.toLower = c := by
  rcases h with rfl | h
  · decide
  · exact Number.toLower_of_isDigit h

/-- A name of the producer column is no count. -/
theorem Number.count_of_alias {limit : ℕ} {value : String}
    (h : Text.asciiLower value ∈ Column.producers.aliases) : count? limit value = none := by
  rw [Option.eq_none_iff_forall_ne_some]
  intro n hn
  obtain ⟨c, cs, hv, hc⟩ := sign_or_digit_of_count hn
  have hl := Text.toLower_of_sign_or_digit hc
  have hp : c = 'p' := by
    simp only [Column.aliases, Text.asciiLower, hv, List.map_cons, hl, List.mem_cons,
      List.not_mem_nil, or_false] at h
    rcases h with h | h
    · exact (List.cons.inj (String.ofList_injective h)).1
    · exact (List.cons.inj (String.ofList_injective h)).1
  subst hp
  rcases hc with hc | hc
  · cases hc
  · cases hc

namespace Schema

theorem exists_cell {hs cs : List String} (h : startsWithHeaders hs cs) {i : ℕ} {header : String}
    (hi : hs[i]? = some header) :
    ∃ cell, cs[i]? = some cell ∧ Text.asciiLower (Text.trim cell) = Text.asciiLower header := by
  induction hs generalizing cs i with
  | nil => cases hi
  | cons first hs ih =>
    cases cs with
    | nil => cases h
    | cons cell cs =>
      obtain ⟨hc, hr⟩ := Bool.and_eq_true_iff.mp h
      cases i with
      | zero =>
        obtain rfl := Option.some.inj hi
        exact ⟨cell, rfl, by simpa [Text.sameLetters] using hc⟩
      | succ i => exact ih hr hi

end Schema

theorem Row.toRun_of_isHeaderRow {headers cells : List String} (file marker : String)
    (h : (Schema.ofHeaders headers).isHeaderRow cells) :
    ∃ e, toRun ⟨.ofHeaders headers, cells⟩ file marker = .error e := by
  cases hr : toRun ⟨.ofHeaders headers, cells⟩ file marker with
  | error e => exact ⟨e, rfl⟩
  | ok run =>
    exfalso
    obtain ⟨_, hs⟩ := Bool.and_eq_true_iff.mp h
    -- The producers were read from a cell, which is the one below their header.
    have hp := count_of_positiveCount (reads_of_toRun hr).producers
    obtain ⟨value, ht, hc⟩ := text_of_count hp
    obtain ⟨i, cell, hi, hcell, rfl⟩ := cell_of_text ht
    obtain ⟨header, hh, hcol⟩ := Schema.exists_header hi
    obtain ⟨cell', hcell', hl⟩ := Schema.exists_cell hs hh
    obtain rfl := Option.some.inj (hcell.symm.trans hcell')
    have htrim : Text.trim header = header := by
      obtain ⟨name, _, rfl⟩ := List.mem_map.mp (List.mem_of_getElem? hh)
      exact Text.trim_trim name
    have ha := Column.ofHeader?_eq_some_iff.mp hcol
    rw [htrim, ← hl] at ha
    cases (Number.count_of_alias ha).symm.trans hc

namespace ResultFile

variable {source marker : String}

/-- The cells of a record, as a row is read from them. A record that is no text has none. -/
def cells? (r : Csv.Record) : Option (List String) :=
  (textCells r.position (r.cells.map (Text.strip isBlankByte))).toOption.map (·.map Text.trim)

theorem run_readRow (headers : List String) (r : Csv.Record) :
    (readRow (.ofHeaders headers) source marker r).run? =
      (cells? r).bind fun cells =>
        (Row.toRun ⟨.ofHeaders headers, cells⟩ source marker).toOption := by
  unfold readRow cells?
  cases textCells r.position (r.cells.map (Text.strip isBlankByte)) with
  | error fault => rfl
  | ok texts =>
    by_cases hh : (Schema.ofHeaders headers).isHeaderRow (texts.map Text.trim)
    · obtain ⟨e, he⟩ := Row.toRun_of_isHeaderRow source marker hh
      simp [hh, he, RowOutcome.run?, Except.toOption]
    · simp only [hh, Bool.false_eq_true, ↓reduceIte]
      cases he : Row.toRun ⟨.ofHeaders headers, texts.map Text.trim⟩ source marker with
      | error e => simp [he, RowOutcome.run?, Except.toOption]
      | ok run => simp [he, RowOutcome.run?, Except.toOption]

theorem exists_headers {header : Option Csv.Record} {schema : Schema}
    (h : readSchema header = .ok schema) : ∃ headers, schema = .ofHeaders headers := by
  cases header with
  | none => exact ⟨[], (Except.ok.inj h).symm⟩
  | some r =>
    obtain ⟨headers, _, he⟩ := Text.ok_of_map h
    exact ⟨headers, he.symm⟩

/-- A row that repeats the header is no run under any layout, so the runs of a file are those of
all its rows. -/
theorem repeated_header_hides_nothing :
    (∀ headers cells file marker, (Schema.ofHeaders headers).isHeaderRow cells →
      ∃ e, Row.toRun ⟨.ofHeaders headers, cells⟩ file marker = .error e) ∧
    ∀ source marker bytes f, ofBytes source marker bytes = .ok f →
      readSchema (Csv.records bytes).head? = .ok f.schema ∧
      f.runs = ((Csv.records bytes).tail.filterMap cells?).filterMap fun cells =>
        (Row.toRun ⟨f.schema, cells⟩ source marker).toOption := by
  refine ⟨?_, ?_⟩
  · intro headers cells file marker h
    exact Row.toRun_of_isHeaderRow file marker h
  · intro source marker bytes f h
    obtain ⟨rfl, hschema, hrows⟩ := ofBytes_eq_ok h
    refine ⟨hschema, ?_⟩
    obtain ⟨headers, he⟩ := exists_headers hschema
    rw [runs, hrows, he, List.filterMap_map, List.filterMap_filterMap]
    exact List.filterMap_congr fun r _ => run_readRow headers r

def repeatedBytes : List UInt8 :=
  "impl,p,c,payload,throughput\nImpl,P,C,Payload,Throughput,1\nspsc,1,1,0,2\n".toList.map
    fun c => UInt8.ofNat c.toNat

theorem repeated_header_hides_nothing_sample :
    (∃ e, Row.toRun ⟨.ofHeaders ["impl", " P ", "p", "", "note"],
      ["IMPL ", "p", "P", " ", "Note", "more"]⟩ "a.csv" "pool" = .error e) ∧
    ∃ f, ofBytes "a.csv" "pool" repeatedBytes = .ok f ∧
      f.runs = ((Csv.records repeatedBytes).tail.filterMap cells?).filterMap fun cells =>
        (Row.toRun ⟨f.schema, cells⟩ "a.csv" "pool").toOption := by
  obtain ⟨hrow, hfile⟩ := repeated_header_hides_nothing
  refine ⟨hrow _ _ _ _ (by decide), ?_⟩
  have hok : (ofBytes "a.csv" "pool" repeatedBytes).isOk := by decide +kernel
  cases h : ofBytes "a.csv" "pool" repeatedBytes with
  | error e =>
    rw [h] at hok
    cases hok
  | ok f => exact ⟨f, rfl, (hfile _ _ _ f h).2⟩

end ResultFile

end QueueBench
