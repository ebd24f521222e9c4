import QueueBench.Proofs.Schema
import QueueBench.Row

/-! # Layout of a table

A row is read by the names of its columns, and every complaint names a column too. So neither
the order of the columns nor a column of another name decides what a row is read as. -/
namespace QueueBench

theorem find?_perm {α : Type} {p : α → Bool} {as bs : List α} (h : as.Perm bs)
    (hu : as.countP p ≤ 1) : as.find? p = bs.find? p := by
  have hp := h.filter p
  rw [List.countP_eq_length_filter] at hu
  rw [← List.head?_filter, ← List.head?_filter]
  cases hf : as.filter p with
  | nil =>
    rw [hf] at hp
    rw [List.nil_perm.mp hp]
  | cons a rest =>
    rw [hf] at hp hu
    obtain rfl : rest = [] := by simpa using hu
    rw [List.singleton_perm.mp hp]

namespace Row

def ofColumns (columns : List (String × String)) : Row :=
  ⟨.ofHeaders (columns.map Prod.fst), columns.map Prod.snd⟩

theorem text_ofColumns (columns : List (String × String)) (c : Column) :
    (ofColumns columns).text? c =
      (columns.find? fun column => Column.ofHeader? column.1 == some c).bind fun column =>
        if Text.trim column.2 = "" then none else some (Text.trim column.2) := by
  induction columns with
  | nil => rfl
  | cons column columns ih =>
    simp only [text?, ofColumns, Schema.index?, Schema.ofHeaders, List.map_cons,
      List.findIdx?_cons, Column.ofHeader?_trim, List.find?_cons] at ih ⊢
    by_cases hc : Column.ofHeader? column.1 = some c
    · simp [hc]
    · have hb : (Column.ofHeader? column.1 == some c) = false := by simpa using hc
      simp only [hb, Bool.false_eq_true, ↓reduceIte, ← ih]
      cases List.findIdx? (fun h => Column.ofHeader? h == some c)
        (columns.map Prod.fst |>.map Text.trim) <;> rfl

variable {row row' : Row}

/-- A row is read through the texts of its columns alone. -/
theorem toRun_congr (h : ∀ c, row.text? c = row'.text? c) (file marker : String) :
    row.toRun file marker = row'.toRun file marker := by
  have hcount (limit : Nat) (c : Column) : row.count limit c = row'.count limit c := by
    rw [count, count, h]
  have hquantity (c : Column) : row.quantity c = row'.quantity c := by
    rw [quantity, quantity, h]
  have hpositive (c : Column) : row.positiveCount c = row'.positiveCount c := by
    rw [positiveCount, positiveCount, hcount]
  have hmode : row.mode file marker = row'.mode file marker := by
    rw [mode, mode, h]
  have hduration : row.duration = row'.duration := by
    rw [duration, duration, hcount]
  have hlatency : row.latency = row'.latency := by
    simp only [latency, latencyAt, hquantity]
  simp only [toRun, h, hcount, hquantity, hpositive, hmode, hduration, hlatency]

theorem isHeaderRow_ofColumns (columns : List (String × String)) :
    (ofColumns columns).schema.isHeaderRow (ofColumns columns).cells =
      (!columns.isEmpty && columns.all fun column =>
        Text.sameLetters (Text.trim column.2) (Text.trim column.1)) := by
  have hs : Schema.startsWithHeaders (ofColumns columns).schema.headers (ofColumns columns).cells =
      columns.all fun column => Text.sameLetters (Text.trim column.2) (Text.trim column.1) := by
    induction columns with
    | nil => rfl
    | cons column columns ih =>
      rw [List.all_cons, ← ih]
      rfl
  rw [Schema.isHeaderRow, hs]
  cases columns <;> rfl

theorem has_ofColumns (columns : List (String × String)) (c : Column) :
    (ofColumns columns).schema.has c =
      columns.any fun column => Column.ofHeader? column.1 == some c := by
  rw [Schema.has_eq_any]
  simp [ofColumns, Schema.ofHeaders, Function.comp_def]

section Perm

variable {columns columns' : List (String × String)}

theorem text_perm (h : columns.Perm columns')
    (hd : ((columns.map Prod.fst).filterMap Column.ofHeader?).Nodup) (c : Column) :
    (ofColumns columns).text? c = (ofColumns columns').text? c := by
  -- The order decides only where several headers name one column.
  have hu : columns.countP (fun column => Column.ofHeader? column.1 == some c) ≤ 1 := by
    have hc := List.nodup_iff_count.mp hd c
    rw [List.count_filterMap, List.countP_map] at hc
    exact hc
  rw [text_ofColumns, text_ofColumns, find?_perm h hu]

theorem isHeaderRow_perm (h : columns.Perm columns') :
    (ofColumns columns).schema.isHeaderRow (ofColumns columns).cells =
      (ofColumns columns').schema.isHeaderRow (ofColumns columns').cells := by
  rw [isHeaderRow_ofColumns, isHeaderRow_ofColumns, h.isEmpty_eq, h.all_eq]

theorem has_perm (h : columns.Perm columns') :
    (ofColumns columns).schema.has = (ofColumns columns').schema.has := by
  funext c
  rw [has_ofColumns, has_ofColumns, h.any_eq]

end Perm

theorem text_insert {before after : List (String × String)} {header : String}
    (h : Column.ofHeader? header = none) (cell : String) (c : Column) :
    (ofColumns (before ++ (header, cell) :: after)).text? c =
      (ofColumns (before ++ after)).text? c := by
  simp [text_ofColumns, List.find?_append, h]

/-- The columns of a table may change places, and columns of other names may be put between them:
each row is read as before, or refused for the same cause. -/
theorem toRun_layout_independent :
    (∀ columns columns' : List (String × String), columns.Perm columns' →
      ((columns.map Prod.fst).filterMap Column.ofHeader?).Nodup →
      (∀ file marker,
        (ofColumns columns).toRun file marker = (ofColumns columns').toRun file marker) ∧
      (ofColumns columns).schema.isHeaderRow (ofColumns columns).cells =
        (ofColumns columns').schema.isHeaderRow (ofColumns columns').cells ∧
      (ofColumns columns).schema.version = (ofColumns columns').schema.version ∧
      (ofColumns columns).schema.missing = (ofColumns columns').schema.missing) ∧
    ∀ (before after : List (String × String)) (header cell : String),
      (∀ c : Column, Text.asciiLower (Text.trim header) ∉ c.aliases) →
      ∀ file marker, (ofColumns (before ++ (header, cell) :: after)).toRun file marker =
        (ofColumns (before ++ after)).toRun file marker := by
  refine ⟨?_, ?_⟩
  · intro columns columns' h hd
    have hh := has_perm h
    refine ⟨?_, isHeaderRow_perm h, ?_, ?_⟩
    · exact toRun_congr (text_perm h hd)
    · rw [Schema.version, Schema.version, hh]
    · rw [Schema.missing, Schema.missing, hh]
  · intro before after header cell h
    exact toRun_congr (text_insert (Column.ofHeader?_eq_none_iff.mpr h) cell)

/-- Two cells of this row are no counts; the one of the producers is reported in either order. -/
theorem toRun_layout_independent_refused :
    (∀ file marker, (ofColumns [("impl", "spsc"), (" P ", "two"), ("C", "-1")]).toRun file marker =
      (ofColumns [("C", "-1"), ("impl", "spsc"), (" P ", "two")]).toRun file marker) ∧
    ∀ file marker, (ofColumns [("impl", "spsc"), ("note", "x"), (" P ", "two")]).toRun file marker =
      (ofColumns [("impl", "spsc"), (" P ", "two")]).toRun file marker := by
  obtain ⟨hperm, hinsert⟩ := toRun_layout_independent
  refine ⟨?_, ?_⟩
  · exact (hperm _ _ (by decide) (by decide)).1
  · exact hinsert [("impl", "spsc")] [(" P ", "two")] "note" "x"
      (Column.ofHeader?_eq_none_iff.mp (by decide))

end Row

end QueueBench
