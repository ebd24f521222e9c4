import Mathlib.Data.List.Induction
import Mathlib.Data.List.Pairwise
import Mathlib.Logic.Function.Basic
import Mathlib.Order.Bounds.Defs
import QueueBench.Proofs.Text.Blank
import QueueBench.Schema

/-! # Columns of a schema

A column is where a header is one of its names, so a schema says of each column no more than
what the headers say. No name is shared between columns, and of several headers for one column
the first counts. -/
namespace QueueBench

variable {header : String} {c d : Column}

namespace Column

theorem nodup_all : all.Nodup := by decide

theorem pairwise_aliases : all.Pairwise fun c d => ∀ name ∈ c.aliases, name ∉ d.aliases := by
  decide

theorem eq_of_alias {name : String} (h : name ∈ c.aliases) (h' : name ∈ d.aliases) : c = d := by
  have : Std.Symm fun c d : Column => ∀ name ∈ c.aliases, name ∉ d.aliases :=
    ⟨fun _ _ hn name hd hc => hn name hc hd⟩
  by_contra hne
  exact pairwise_aliases.forall (mem_all c) (mem_all d) hne name h h'

/-- The order in which columns are tried does not matter. -/
theorem find?_alias {columns : List Column} (hc : c ∈ columns) (name : String) :
    columns.find? (fun d => d.aliases.contains name) = some c ↔ name ∈ c.aliases := by
  constructor
  · intro h
    simpa using List.find?_some h
  · intro h
    cases hf : columns.find? (fun d => d.aliases.contains name) with
    | none =>
      have hn := List.find?_eq_none.mp hf c hc
      exact (hn (by simpa using h)).elim
    | some d =>
      have hd : name ∈ d.aliases := by simpa using List.find?_some hf
      rw [eq_of_alias hd h]

theorem ofHeader?_eq_some_iff :
    ofHeader? header = some c ↔ Text.asciiLower (Text.trim header) ∈ c.aliases :=
  find?_alias (mem_all c) _

theorem ofHeader?_eq_none_iff :
    ofHeader? header = none ↔ ∀ c : Column, Text.asciiLower (Text.trim header) ∉ c.aliases := by
  simp [ofHeader?, mem_all]

@[simp] theorem ofHeader?_trim (header : String) :
    ofHeader? (Text.trim header) = ofHeader? header := by
  simp [ofHeader?]

end Column

namespace Schema

variable {s : Schema} {headers : List String} {i : ℕ}

theorem exists_header (h : s.index? c = some i) :
    ∃ header, s.headers[i]? = some header ∧ Column.ofHeader? header = some c := by
  obtain ⟨hi, hc, _⟩ := List.findIdx?_eq_some_iff_getElem.mp h
  exact ⟨s.headers[i], List.getElem?_eq_getElem hi, by simpa using hc⟩

theorem has_eq_any (s : Schema) (c : Column) :
    s.has c = s.headers.any fun h => Column.ofHeader? h == some c :=
  List.findIdx?_isSome

def NamedAt (headers : List String) (c : Column) (i : ℕ) : Prop :=
  ∃ header, headers[i]? = some header ∧ Text.asciiLower (Text.trim header) ∈ c.aliases

theorem NamedAt.unique (h : NamedAt headers c i) (h' : NamedAt headers d i) : c = d := by
  obtain ⟨header, hh, hc⟩ := h
  obtain ⟨header', hh', hd⟩ := h'
  obtain rfl := Option.some.inj (hh.symm.trans hh')
  exact Column.eq_of_alias hc hd

theorem namedAt_iff :
    NamedAt headers c i ↔ ∃ h : i < headers.length, Column.ofHeader? headers[i] = some c := by
  simp only [NamedAt, List.getElem?_eq_some_iff, Column.ofHeader?_eq_some_iff]
  constructor
  · rintro ⟨_, ⟨hi, rfl⟩, hc⟩
    exact ⟨hi, hc⟩
  · rintro ⟨hi, hc⟩
    exact ⟨_, ⟨hi, rfl⟩, hc⟩

theorem index?_ofHeaders (headers : List String) (c : Column) :
    (ofHeaders headers).index? c = headers.findIdx? fun h => Column.ofHeader? h == some c := by
  simp [index?, ofHeaders, List.findIdx?_map, Function.comp_def]

theorem index?_eq_some_iff :
    (ofHeaders headers).index? c = some i ↔ IsLeast {j | NamedAt headers c j} i := by
  rw [index?_ofHeaders, List.findIdx?_eq_some_iff_getElem]
  constructor
  · rintro ⟨hi, hc, hbefore⟩
    refine ⟨namedAt_iff.mpr ⟨hi, by simpa using hc⟩, ?_⟩
    intro j hj
    obtain ⟨hl, hcj⟩ := namedAt_iff.mp hj
    by_contra hlt
    exact hbefore j (Nat.lt_of_not_le hlt) (by simpa using hcj)
  · rintro ⟨hn, hleast⟩
    obtain ⟨hi, hc⟩ := namedAt_iff.mp hn
    refine ⟨hi, by simpa using hc, ?_⟩
    intro j hlt hcj
    have hj : NamedAt headers c j := namedAt_iff.mpr ⟨hlt.trans hi, by simpa using hcj⟩
    exact Nat.not_le_of_lt hlt (hleast hj)

theorem has_iff : (ofHeaders headers).has c ↔ ∃ i, NamedAt headers c i := by
  rw [has_eq_any, ofHeaders, List.any_map, List.any_eq_true]
  constructor
  · rintro ⟨header, hm, hc⟩
    obtain ⟨i, hi⟩ := List.getElem?_of_mem hm
    exact ⟨i, header, hi, Column.ofHeader?_eq_some_iff.mp (by simpa using hc)⟩
  · rintro ⟨i, header, hi, hc⟩
    refine ⟨header, List.mem_of_getElem? hi, ?_⟩
    simpa using Column.ofHeader?_eq_some_iff.mpr hc

theorem mem_missing_iff :
    c ∈ (ofHeaders headers).missing ↔ c.isMandatory ∧ ∀ i, ¬ NamedAt headers c i := by
  rw [missing, List.mem_filter, Bool.and_eq_true, Bool.not_eq_true', Bool.eq_false_iff, Ne, has_iff,
    not_exists]
  exact and_iff_right (Column.mem_all c)

/-- The column that a header names takes the header's position, unless it has one. -/
def offer (place : Column → Option ℕ) (header : String × ℕ) : Column → Option ℕ :=
  match Column.ofHeader? (Text.trim header.1) with
  | some c =>
    match place c with
    | some _ => place
    | none => Function.update place c (some header.2)
  | none => place

theorem offer_apply (place : Column → Option ℕ) (header : String) (i : ℕ) (c : Column) :
    offer place (header, i) c =
      (place c).or (if Column.ofHeader? header = some c then some i else none) := by
  unfold offer
  rw [Column.ofHeader?_trim]
  cases hc : Column.ofHeader? header with
  | none => simp
  | some d =>
    by_cases hd : d = c
    · subst hd
      cases hp : place d <;> simp [hp]
    · cases hp : place d <;> simp [hp, hd, Ne.symm hd]

theorem index?_concat (headers : List String) (header : String) (c : Column) :
    (ofHeaders (headers ++ [header])).index? c = ((ofHeaders headers).index? c).or
      (if Column.ofHeader? header = some c then some headers.length else none) := by
  simp only [index?_ofHeaders, List.findIdx?_append, List.findIdx?_singleton, beq_iff_eq]
  split <;> simp

/-- One header after another, every column keeps the first position that it is offered. -/
theorem foldl_offer (headers : List String) :
    headers.zipIdx.foldl offer (fun _ => none) = (ofHeaders headers).index? := by
  induction headers using List.reverseRecOn with
  | nil => rfl
  | append_singleton headers header ih =>
    funext c
    -- What the headers before have placed is their schema, and the last one offers its position.
    rw [List.zipIdx_append, List.foldl_append, ih, index?_concat]
    simpa using offer_apply _ header headers.length c

/-- A column stands at the first header that is a name of it, and no other column stands there.
Missing are the mandatory columns without such a header, in the order of the columns. A loop
that gives each column the first position on offer ends with the same positions. -/
theorem resolves_headers (headers : List String) :
    (∀ c i, (ofHeaders headers).index? c = some i ↔ IsLeast {j | NamedAt headers c j} i) ∧
      (∀ c d i, c ≠ d → (ofHeaders headers).index? c = some i →
        (ofHeaders headers).index? d ≠ some i) ∧
      (ofHeaders headers).missing.Sublist Column.all ∧ (ofHeaders headers).missing.Nodup ∧
      (∀ c, c ∈ (ofHeaders headers).missing ↔ c.isMandatory ∧ ∀ i, ¬ NamedAt headers c i) ∧
      headers.zipIdx.foldl offer (fun _ => none) = (ofHeaders headers).index? := by
  have hsub : (ofHeaders headers).missing.Sublist Column.all := List.filter_sublist
  refine ⟨?_, ?_, hsub, Column.nodup_all.sublist hsub, ?_, foldl_offer headers⟩
  · intro c i
    exact index?_eq_some_iff
  · intro c d i hne hc hd
    have hcn := (index?_eq_some_iff.mp hc).1
    have hdn := (index?_eq_some_iff.mp hd).1
    exact hne (hcn.unique hdn)
  · intro c
    exact mem_missing_iff

/-- Names in several spellings, columns named twice and headers that name none. -/
def respelledHeaders : List String :=
  ["Queue ", "note", " P ", "IMPL", "producers", "", "Payload"]

theorem resolves_headers_respelled :
    (ofHeaders respelledHeaders).index? .producers = some 2 ∧
      IsLeast {j | NamedAt respelledHeaders .producers j} 2 ∧
      (ofHeaders respelledHeaders).index? .implementation ≠ some 2 ∧
      (ofHeaders respelledHeaders).missing = [.consumers, .throughput] := by
  obtain ⟨hfirst, hapart, -⟩ := resolves_headers respelledHeaders
  have h : (ofHeaders respelledHeaders).index? .producers = some 2 := by decide
  refine ⟨h, (hfirst _ _).mp h, hapart _ _ _ (by decide) h, by decide⟩

end Schema

end QueueBench
