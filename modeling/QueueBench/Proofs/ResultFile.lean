import QueueBench.Proofs.Csv
import QueueBench.Proofs.Logged
import QueueBench.Proofs.Text.Blank

/-! # Appended result files

A harness may append to a result file, with or without another header. What the rows of a
file say, apart from the lines on which they stand, is then what the rows of both parts say
under the same header. -/
namespace QueueBench

inductive RowKind where
  | run (r : Run)
  | rejected
  | repeatedHeader
  deriving DecidableEq

namespace RowKind

def run? : RowKind → Option Run
  | run r => some r
  | _ => none

end RowKind

def RowOutcome.kind : RowOutcome → RowKind
  | run r => .run r
  | rejected _ => .rejected
  | repeatedHeader _ => .repeatedHeader

namespace ResultFile

def kinds (f : ResultFile) : List RowKind := f.rows.map RowOutcome.kind

theorem runs_eq (f : ResultFile) : f.runs = f.kinds.filterMap RowKind.run? := by
  rw [runs, kinds, List.filterMap_map]
  congr 1
  funext o
  cases o <;> rfl

theorem length_rejections (f : ResultFile) : f.rejections.length = f.kinds.count .rejected := by
  rw [rejections, kinds, List.length_filterMap_eq_countP, List.count, List.countP_map]
  congr 1
  funext o
  cases o <;> rfl

theorem repeatedHeaders_eq (f : ResultFile) :
    f.repeatedHeaders = f.kinds.count .repeatedHeader := by
  rw [repeatedHeaders, kinds, List.count, List.countP_map]
  congr 1
  funext o
  cases o <;> rfl

variable {schema : Schema} {source marker : String}

def kindOf (schema : Schema) (source marker : String) (cells : List (List UInt8)) : RowKind :=
  (readRow schema source marker ⟨⟨0, 0, 0⟩, cells⟩).kind

theorem kind_readRow (r : Csv.Record) :
    (readRow schema source marker r).kind = kindOf schema source marker r.cells := by
  unfold kindOf readRow textCells
  cases decodeCells 0 (r.cells.map (Text.strip isBlankByte)) with
  | error e => rfl
  | ok texts =>
    simp only [Except.mapError]
    split
    · rfl
    · split <;> rfl

theorem decodeCells_of_forall {cells : List (List UInt8)} {texts : List String}
    (h : List.Forall₂ (fun c t => Text.decode c = .ok t) cells texts) (i : ℕ) :
    decodeCells i cells = .ok texts := by
  induction h generalizing i with
  | nil => rfl
  | cons hc _ ih =>
    rw [decodeCells, hc, ih]
    rfl

theorem exists_texts_of_forall {cells : List (List UInt8)}
    (h : ∀ c ∈ cells, ∃ cs, Text.Decodes c cs) :
    ∃ texts, List.Forall₂ (fun c t => Text.decode c = .ok t) cells texts := by
  induction cells with
  | nil => exact ⟨[], .nil⟩
  | cons c cells ih =>
    obtain ⟨texts, ht⟩ := ih fun d hd => h d (List.mem_cons_of_mem _ hd)
    obtain ⟨cs, hd⟩ := h c List.mem_cons_self
    refine ⟨String.ofList cs :: texts, .cons ?_ ht⟩
    rw [Text.decode, Text.decodeAt_of_decodes hd]
    rfl

theorem standsForBlank_isBlankByte : Text.StandsForBlank isBlankByte := by
  intro b hb
  simp only [isBlankByte, Bool.or_eq_true, beq_iff_eq] at hb
  rcases hb with (((rfl | rfl) | rfl) | rfl) | rfl <;> decide

/-- Cells that lose their blanks are still text, and the same text up to blanks. -/
theorem exists_decode_strip {cells : List (List UInt8)} {texts : List String}
    (h : List.Forall₂ (fun c t => Text.decode c = .ok t) cells texts) :
    ∃ texts', List.Forall₂ (fun c t => Text.decode c = .ok t)
        (cells.map (Text.strip isBlankByte)) texts' ∧
      texts'.map Text.trim = texts.map Text.trim := by
  induction h with
  | nil => exact ⟨[], .nil, rfl⟩
  | cons hc _ ih =>
    obtain ⟨texts', ht, he⟩ := ih
    obtain ⟨t, hd, htrim⟩ := Text.decode_strip standsForBlank_isBlankByte hc
    exact ⟨t :: texts', .cons hd ht, by simp [htrim, he]⟩

theorem startsWithHeaders_self {hs : List String} (h : ∀ t ∈ hs, Text.trim t = t) :
    Schema.startsWithHeaders hs hs := by
  induction hs with
  | nil => rfl
  | cons t ts ih =>
    have hr := ih fun u hu => h u (List.mem_cons_of_mem _ hu)
    simp [Schema.startsWithHeaders, h t List.mem_cons_self, Text.sameLetters, hr]

theorem kindOf_header {cells : List (List UInt8)} {texts : List String} (hne : cells ≠ [])
    (h : List.Forall₂ (fun c t => Text.decode c = .ok t) cells texts) (source marker : String) :
    kindOf (.ofHeaders texts) source marker cells = .repeatedHeader := by
  obtain ⟨texts', hd, he⟩ := exists_decode_strip h
  have hn : texts ≠ [] := by
    rintro rfl
    cases h
    exact hne rfl
  have hh : (Schema.ofHeaders texts).isHeaderRow (texts'.map Text.trim) := by
    rw [Schema.isHeaderRow, Schema.ofHeaders, he, startsWithHeaders_self (by simp)]
    simpa using hn
  rw [kindOf, readRow, textCells, decodeCells_of_forall hd]
  simp [Except.mapError, hh, RowOutcome.kind]

/-- The rows of a file with a readable header. -/
theorem exists_ofBytes {bytes : List UInt8} {header : List (List UInt8)}
    {rest : List (List (List UInt8))} {texts : List String}
    (h : (Csv.records bytes).map Csv.Record.cells = header :: rest)
    (ht : List.Forall₂ (fun c t => Text.decode c = .ok t) header texts)
    (source marker : String) :
    ∃ f, ofBytes source marker bytes = .ok f ∧
      f.kinds = rest.map (kindOf (.ofHeaders texts) source marker) := by
  obtain ⟨first, others, hr, rfl, rfl⟩ := List.map_eq_cons_iff.mp h
  refine ⟨⟨source, .ofHeaders texts,
    others.map (readRow (.ofHeaders texts) source marker)⟩, ?_, ?_⟩
  · rw [ofBytes_eq, hr, List.head?_cons, readSchema, textCells, decodeCells_of_forall ht]
    rfl
  · simp [kinds, kind_readRow, Function.comp_def]

end ResultFile

open Csv (PlainLines byteOrderMark lineFeed comma)

/-- A readable header with its line feed. A line feed alone ends a blank line, which is no
header. -/
structure HeaderLine (h : List UInt8) : Prop where
  isLine : ∃ line, h = line ++ [lineFeed] ∧ Csv.Line line
  noMark : ¬ byteOrderMark <+: h
  isText : ∃ s, Text.decode h = .ok s

namespace HeaderLine

variable {h : List UInt8}

theorem plainLines (hh : HeaderLine h) : PlainLines h := by
  obtain ⟨line, rfl, hl⟩ := hh.isLine
  refine ⟨Or.inr (by simp), ?_, ?_⟩
  · simpa using ⟨hl.noQuote, by decide⟩
  · simpa using ⟨hl.noReturn, by decide⟩

theorem noMark_append (hh : HeaderLine h) (bs : List UInt8) : ¬ byteOrderMark <+: h ++ bs := by
  intro hm
  obtain ⟨line, rfl, hl⟩ := hh.isLine
  -- A header of fewer than three bytes has its line feed where the mark has none.
  rcases line with _ | ⟨x, _ | ⟨y, rest⟩⟩
  · exact hl.ne_nil rfl
  · have hs := (List.cons_prefix_cons.mp hm).2
    exact absurd (List.cons_prefix_cons.mp hs).1 (by decide)
  · apply hh.noMark
    exact List.prefix_of_prefix_length_le hm (List.prefix_append _ bs) (by simp [byteOrderMark])

theorem exists_texts (hh : HeaderLine h) {line : List UInt8} (he : h = line ++ [lineFeed]) :
    ∃ texts, List.Forall₂ (fun c t => Text.decode c = .ok t) (Csv.cellsOf [] line) texts := by
  obtain ⟨s, hs⟩ := hh.isText
  obtain ⟨cs, hs, _⟩ := Text.ok_of_map hs
  have hd := Text.decodes_of_decodeAt hs
  rw [he] at hd
  obtain ⟨us, _, _, hu, _⟩ := hd.cut (by decide)
  have hP (xs ys : List UInt8) (hd : ∃ cs, Text.Decodes (xs ++ comma :: ys) cs) :
      (∃ cs, Text.Decodes xs cs) ∧ ∃ cs, Text.Decodes ys cs := by
    obtain ⟨cs, hd⟩ := hd
    obtain ⟨us, vs, _, hx, hy⟩ := hd.cut (by decide)
    exact ⟨⟨us, hx⟩, ⟨vs, hy⟩⟩
  have hc : ∀ c ∈ Csv.cellsOf [] line, ∃ cs, Text.Decodes c cs :=
    Csv.forall_mem_cellsOf (fun bs => ∃ cs, Text.Decodes bs cs) hP ⟨us, hu⟩
  exact ResultFile.exists_texts_of_forall hc

/-- A file with this header: the cells of the header, then those of the rest on its own. -/
theorem cells_append (hh : HeaderLine h) :
    ∃ cells texts, cells ≠ [] ∧
      List.Forall₂ (fun c t => Text.decode c = .ok t) cells texts ∧
      Csv.table h = [cells] ∧
      ∀ bs, (Csv.records (h ++ bs)).map Csv.Record.cells = cells :: Csv.table bs := by
  obtain ⟨line, he, hl⟩ := hh.isLine
  obtain ⟨texts, ht⟩ := hh.exists_texts he
  have htable : Csv.table h = [Csv.cellsOf [] line] := he ▸ Csv.table_line hl
  refine ⟨_, texts, Csv.cellsOf_ne_nil [] line, ht, htable, fun bs => ?_⟩
  have hm : byteOrderMark.isPrefixOf (h ++ bs) = false := by
    rw [← Bool.not_eq_true, List.isPrefixOf_iff_prefix]
    exact hh.noMark_append bs
  rw [Csv.records, hm]
  have htab := Csv.table_append hh.plainLines bs
  rw [htable] at htab
  exact htab

end HeaderLine

/-- Appended rows say what they say in a file of their own with the same header. -/
theorem ResultFile.ofBytes_append (source marker : String) {h a : List UInt8}
    (hh : HeaderLine h) (ha : PlainLines a) (b : List UInt8) :
    ∃ fa fb f g, ofBytes source marker (h ++ a) = .ok fa ∧
      ofBytes source marker (h ++ b) = .ok fb ∧
      ofBytes source marker (h ++ a ++ b) = .ok f ∧
      ofBytes source marker (h ++ a ++ h ++ b) = .ok g ∧
      f.runs = fa.runs ++ fb.runs ∧ g.runs = fa.runs ++ fb.runs ∧
      f.rejections.length = fa.rejections.length + fb.rejections.length ∧
      g.rejections.length = fa.rejections.length + fb.rejections.length ∧
      f.repeatedHeaders = fa.repeatedHeaders + fb.repeatedHeaders ∧
      g.repeatedHeaders = fa.repeatedHeaders + fb.repeatedHeaders + 1 := by
  obtain ⟨cells, texts, hne, ht, htable, hcells⟩ := hh.cells_append
  have hab : (Csv.records (h ++ a ++ b)).map Csv.Record.cells =
      cells :: (Csv.table a ++ Csv.table b) := by
    rw [List.append_assoc, hcells, Csv.table_append ha]
  have hahb : (Csv.records (h ++ a ++ h ++ b)).map Csv.Record.cells =
      cells :: (Csv.table a ++ cells :: Csv.table b) := by
    rw [List.append_assoc, List.append_assoc, hcells, Csv.table_append ha,
      Csv.table_append hh.plainLines, htable]
    rfl
  obtain ⟨fa, hfa, ka⟩ := exists_ofBytes (hcells a) ht source marker
  obtain ⟨fb, hfb, kb⟩ := exists_ofBytes (hcells b) ht source marker
  obtain ⟨f, hf, kf⟩ := exists_ofBytes hab ht source marker
  obtain ⟨g, hg, kg⟩ := exists_ofBytes hahb ht source marker
  have hkf : f.kinds = fa.kinds ++ fb.kinds := by
    rw [kf, ka, kb, List.map_append]
  have hkg : g.kinds = fa.kinds ++ .repeatedHeader :: fb.kinds := by
    rw [kg, ka, kb, List.map_append, List.map_cons, kindOf_header hne ht]
  refine ⟨fa, fb, f, g, hfa, hfb, hf, hg, ?_, ?_, ?_, ?_, ?_, ?_⟩
  · simp only [runs_eq, hkf, List.filterMap_append]
  · simp only [runs_eq, hkg, List.filterMap_append]
    rfl
  · simp only [length_rejections, hkf, List.count_append]
  · simp [length_rejections, hkg, List.count_append]
  · simp only [repeatedHeaders_eq, hkf, List.count_append]
  · simp only [repeatedHeaders_eq, hkg, List.count_append, List.count_cons_self]
    omega

def sampleHeader : List UInt8 := [0x70, 0x2C, 0x63, 0x0A]

def sampleRows : List UInt8 := [0x50, 0x2C, 0x43, 0x20, 0x0A, 0x0A]

def sampleRest : List UInt8 := [0xFF, 0x0A, 0x22, 0x0A, 0x70]

theorem ResultFile.ofBytes_append_sample :
    ∃ fa fb g, ofBytes "" "" (sampleHeader ++ sampleRows) = .ok fa ∧
      ofBytes "" "" (sampleHeader ++ sampleRest) = .ok fb ∧
      ofBytes "" "" (sampleHeader ++ sampleRows ++ sampleHeader ++ sampleRest) = .ok g ∧
      g.rejections.length = fa.rejections.length + fb.rejections.length ∧
      g.repeatedHeaders = fa.repeatedHeaders + fb.repeatedHeaders + 1 := by
  have hh : HeaderLine sampleHeader :=
    ⟨⟨[0x70, 0x2C, 0x63], rfl, by decide, by decide, by decide, by decide⟩, by decide,
      ⟨"p,c\n", by decide⟩⟩
  have ha : PlainLines sampleRows := ⟨by decide, by decide, by decide⟩
  obtain ⟨fa, fb, _, g, hfa, hfb, _, hg, _, _, _, hr, _, hn⟩ :=
    ofBytes_append "" "" hh ha sampleRest
  exact ⟨fa, fb, g, hfa, hfb, hg, hr, hn⟩

end QueueBench
