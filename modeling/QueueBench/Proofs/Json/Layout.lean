import Mathlib.Data.List.Forall2
import QueueBench.Proofs.Json.Grammar

/-! # Documents as texts of JSON

Whatever a document holds, its text over several lines and its text on one line are both read as
the same value. The parts of a text are read in front of anything that does not go on with a
number, which is what stands between them. -/
namespace QueueBench

namespace Json

open Document (openRecord closeRecord stringText escape controlEscape)

variable {text bs cs r : List Char} {texts : List (List Char)} {v : Json} {vs : List Json}
  {name : String} {fs : List (String × Json)} {c : Char}

def Blanks (bs : List Char) : Prop := ∀ c ∈ bs, isBlank c

theorem blanks_nil : Blanks [] := nofun

theorem skip_append (hb : Blanks bs) (cs : List Char) : skip (bs ++ cs) = skip cs :=
  List.dropWhile_append_of_pos hb

theorem skip_cons (hc : isBlank c = false) (cs : List Char) : skip (c :: cs) = c :: cs :=
  List.dropWhile_cons_of_neg (by rw [hc]; exact Bool.false_ne_true)

theorem isNumberChar_of_isBlank (h : isBlank c) : isNumberChar c = false := by
  simp only [isBlank, decide_eq_true_eq] at h
  rcases h with rfl | rfl | rfl | rfl <;> decide

theorem stops_cons (hc : isNumberChar c = false) (r : List Char) : Stops (c :: r) := by
  intro d hd
  obtain rfl := Option.some.inj hd
  exact hc

theorem stops_append (hb : Blanks bs) (hr : Stops r) : Stops (bs ++ r) := by
  cases bs with
  | nil => exact hr
  | cons b bs => exact stops_cons (isNumberChar_of_isBlank (hb b List.mem_cons_self)) _

/-- The text is read as the value, with anything behind it that ends a number. -/
def Item (text : List Char) (v : Json) : Prop :=
  ∀ r, Stops r → Reads .value (skip (text ++ r)) v r

def Field (text : List Char) (f : String × Json) : Prop :=
  ∀ r, Stops r → ∃ cs, Named (skip (text ++ r)) f.1 cs ∧ Reads .value cs f.2 r

theorem Item.blanks (h : Item text v) (hb : Blanks bs) : Item (bs ++ text) v := by
  intro r hr
  rw [List.append_assoc, skip_append hb]
  exact h r hr

theorem Field.blanks {f : String × Json} (h : Field text f) (hb : Blanks bs) :
    Field (bs ++ text) f := by
  intro r hr
  rw [List.append_assoc, skip_append hb]
  exact h r hr

theorem Item.denotes (h : Item text v) : Denotes text v := by
  refine ⟨[], ?_, rfl⟩
  have hr := h [] nofun
  rwa [List.append_nil] at hr

theorem intercalate_append (text : List Char) (hne : texts ≠ []) (cs : List Char) :
    [','].intercalate (text :: texts) ++ cs = text ++ ',' :: ([','].intercalate texts ++ cs) := by
  obtain ⟨text', texts, rfl⟩ := List.exists_cons_of_ne_nil hne
  simp [List.intercalate]

theorem reads_items (h : List.Forall₂ Item texts vs) (hne : texts ≠ []) (hb : Blanks bs)
    (r : List Char) :
    Reads .items (skip ([','].intercalate texts ++ (bs ++ ']' :: r))) (array vs) r := by
  have hclose : skip (bs ++ ']' :: r) = ']' :: r := (skip_append hb _).trans (skip_cons rfl r)
  have hstop : Stops (bs ++ ']' :: r) := stops_append hb (stops_cons (c := ']') rfl r)
  induction h with
  | nil => exact (hne rfl).elim
  | @cons text v texts vs ht hts ih =>
    cases hts with
    | nil => simpa [List.intercalate] using Reads.lastItem (ht _ hstop) hclose
    | cons =>
      rw [intercalate_append text (List.cons_ne_nil _ _)]
      exact .nextItem (ht _ (stops_cons (c := ',') rfl _)) (skip_cons rfl _)
        (ih (List.cons_ne_nil _ _))

theorem reads_fields (h : List.Forall₂ Field texts fs) (hne : texts ≠ []) (hb : Blanks bs)
    (r : List Char) :
    Reads .fields (skip ([','].intercalate texts ++ (bs ++ closeRecord :: r))) (object fs) r := by
  have hclose : skip (bs ++ closeRecord :: r) = closeRecord :: r :=
    (skip_append hb _).trans (skip_cons rfl r)
  have hstop : Stops (bs ++ closeRecord :: r) :=
    stops_append hb (stops_cons (c := closeRecord) rfl r)
  induction h with
  | nil => exact (hne rfl).elim
  | @cons text f texts fs ht hts ih =>
    cases hts with
    | nil =>
      obtain ⟨cs, hn, hv⟩ := ht _ hstop
      simpa [List.intercalate] using Reads.lastField hn hv hclose
    | cons =>
      rw [intercalate_append text (List.cons_ne_nil _ _)]
      obtain ⟨cs, hn, hv⟩ := ht _ (stops_cons (c := ',') rfl _)
      exact .nextField hn hv (skip_cons rfl _) (ih (List.cons_ne_nil _ _))

theorem item_array (h : List.Forall₂ Item texts vs) (hb : Blanks bs) :
    Item ('[' :: ([','].intercalate texts ++ (bs ++ [']']))) (array vs) := by
  intro r _
  have hcs : '[' :: ([','].intercalate texts ++ (bs ++ [']'])) ++ r =
      '[' :: ([','].intercalate texts ++ (bs ++ ']' :: r)) := by simp
  rw [hcs, skip_cons rfl]
  cases h with
  | nil => exact .noItems rfl ((skip_append hb _).trans (skip_cons rfl r))
  | cons ht hts => exact .items rfl (reads_items (.cons ht hts) (List.cons_ne_nil _ _) hb r)

theorem item_object (h : List.Forall₂ Field texts fs) (hb : Blanks bs) :
    Item (openRecord :: ([','].intercalate texts ++ (bs ++ [closeRecord]))) (object fs) := by
  intro r _
  have hcs : openRecord :: ([','].intercalate texts ++ (bs ++ [closeRecord])) ++ r =
      openRecord :: ([','].intercalate texts ++ (bs ++ closeRecord :: r)) := by simp
  rw [hcs, skip_cons rfl]
  cases h with
  | nil => exact .noFields rfl ((skip_append hb _).trans (skip_cons rfl r))
  | cons ht hts => exact .fields rfl (reads_fields (.cons ht hts) (List.cons_ne_nil _ _) hb r)

theorem codeUnit?_controlEscape : ∀ n < 32,
    codeUnit? (List.replicate (4 - (Nat.toDigits 16 n).length) '0' ++ Nat.toDigits 16 n) =
      some n := by
  decide

theorem piece_escape (c : Char) : Piece (escape c) c := by
  have hc : ∀ n, c.toNat = n → Char.ofNat n = c := fun n h => by rw [← h, Char.ofNat_toNat]
  unfold escape
  split
  case h_8 hq hb =>
    by_cases hn : c.toNat < 32
    · have hp := Piece.escaped (.code (codeUnit?_controlEscape _ hn) (Or.inl (by omega)))
      rw [Char.ofNat_toNat] at hp
      rw [if_pos hn]
      exact hp
    · rw [if_neg hn]
      refine .plain (Nat.le_of_not_lt hn) ?_ ?_
      · rintro rfl
        exact hq rfl
      · rintro rfl
        exact hb rfl
  all_goals
    rename_i h
    obtain rfl := hc _ h
    exact .escaped (.short (by decide))

/-- Whatever stands in a string, its text is read as the string. -/
theorem quoted_stringText (s r : List Char) : Quoted (s.flatMap escape ++ '"' :: r) s r := by
  induction s with
  | nil => exact .close rfl
  | cons c s ih =>
    rw [List.flatMap_cons, List.append_assoc]
    exact .piece rfl (piece_escape c) ih

theorem stringText_append (s : String) (r : List Char) :
    stringText s ++ r = '"' :: (s.toList.flatMap escape ++ '"' :: r) := by
  simp [stringText]

theorem item_stringText (s : String) : Item (stringText s) (string s) := by
  intro r _
  have hs := Reads.scalar (.string rfl (quoted_stringText s.toList r))
  rw [String.ofList_toList] at hs
  rw [stringText_append, skip_cons rfl]
  exact hs

theorem field_stringText (name : String) (h : Item text v) (hb : Blanks bs) :
    Field (stringText name ++ ':' :: (bs ++ text)) (name, v) := by
  intro r hr
  refine ⟨skip (bs ++ (text ++ r)), ⟨_, name.toList, _, bs ++ (text ++ r), ?_,
    quoted_stringText name.toList _, skip_cons rfl _, String.ofList_toList.symm, rfl⟩, ?_⟩
  · rw [List.append_assoc, stringText_append, skip_cons rfl]
    simp
  · rw [← List.append_assoc]
    exact h.blanks hb r hr

theorem item_number {q : ℚ} (h : NumberText text q) : Item text (number q) := by
  intro r hr
  obtain ⟨c, ds, rfl, -⟩ := h.head
  have hb : isBlank c = false := by
    by_contra hb
    have hn := isNumberChar_of_isBlank (Bool.of_not_eq_false hb)
    rw [h.isNumberChar c List.mem_cons_self] at hn
    cases hn
  rw [List.cons_append, skip_cons hb]
  exact .scalar (.number rfl h hr)

end Json

namespace Document

open Json

variable {d : Document} {ds : List Document} {v : Json} {vs : List Json}

theorem indentedItems_eq (depth : ℕ) (ds : List Document) :
    indentedItems depth ds = ds.map (indented depth) := by
  induction ds with
  | nil => rfl
  | cons d ds ih => rw [indentedItems, ih, List.map_cons]

theorem indentedFields_eq (depth : ℕ) (fields : List (String × Document)) :
    indentedFields depth fields =
      fields.map fun f => stringText f.1 ++ ": ".toList ++ indented depth f.2 := by
  induction fields with
  | nil => rfl
  | cons f fields ih => rw [indentedFields, ih, List.map_cons]

theorem compactItems_eq (ds : List Document) : compactItems ds = ds.map compact := by
  induction ds with
  | nil => rfl
  | cons d ds ih => rw [compactItems, ih, List.map_cons]

theorem compactFields_eq (fields : List (String × Document)) :
    compactFields fields = fields.map fun f => stringText f.1 ++ ':' :: compact f.2 := by
  induction fields with
  | nil => rfl
  | cons f fields ih => rw [compactFields, ih, List.map_cons]

theorem blanks_newline (depth : ℕ) : Blanks (newline depth) := by
  intro c hc
  rcases List.mem_cons.mp hc with rfl | hc
  · rfl
  · obtain rfl := List.eq_of_mem_replicate hc
    rfl

structure Prints (d : Document) (v : Json) : Prop where
  indented : ∀ depth, Item (d.indented depth) v
  compact : Item d.compact v

theorem prints_null : Prints null .null := by
  have h : Item "null".toList .null := by
    intro r _
    exact .scalar (.word (w := "null".toList) (skip_cons rfl _) (by simp [words]))
  exact ⟨fun _ => h, h⟩

theorem prints_number {digits : String} {q : ℚ} (h : NumberText digits.toList q) :
    Prints (number digits) (.number q) :=
  ⟨fun _ => item_number h, item_number h⟩

theorem prints_text (s : String) : Prints (text s) (.string s) :=
  ⟨fun _ => item_stringText s, item_stringText s⟩

/-- Items on lines of their own are items between blanks. -/
theorem block_eq (opening closing : Char) (depth : ℕ) (texts : List (List Char)) :
    ∃ bs, Blanks bs ∧ block opening closing depth texts =
      opening :: ([','].intercalate (texts.map (newline (depth + 1) ++ ·)) ++
        (bs ++ [closing])) := by
  cases texts with
  | nil => exact ⟨[], nofun, rfl⟩
  | cons text texts => exact ⟨newline depth, blanks_newline depth, by simp [block]⟩

theorem prints_list (h : List.Forall₂ Prints ds vs) : Prints (list ds) (.array vs) where
  indented depth := by
    obtain ⟨bs, hb, he⟩ := block_eq '[' ']' depth (indentedItems (depth + 1) ds)
    rw [Document.indented, he, indentedItems_eq, List.map_map]
    refine item_array ?_ hb
    rw [List.forall₂_map_left_iff]
    exact h.imp fun _ _ hp => (hp.indented (depth + 1)).blanks (blanks_newline (depth + 1))
  compact := by
    have hi : List.Forall₂ Item (compactItems ds) vs := by
      rw [compactItems_eq, List.forall₂_map_left_iff]
      exact h.imp fun _ _ hp => hp.compact
    exact item_array hi blanks_nil

def PrintsField (f : String × Document) (g : String × Json) : Prop := f.1 = g.1 ∧ Prints f.2 g.2

theorem prints_record {fields : List (String × Document)} {fs : List (String × Json)}
    (h : List.Forall₂ PrintsField fields fs) : Prints (record fields) (.object fs) where
  indented depth := by
    obtain ⟨bs, hb, he⟩ :=
      block_eq openRecord closeRecord depth (indentedFields (depth + 1) fields)
    rw [Document.indented, he, indentedFields_eq, List.map_map]
    refine item_object ?_ hb
    rw [List.forall₂_map_left_iff]
    refine h.imp ?_
    rintro ⟨name, d⟩ ⟨_, v⟩ ⟨rfl, hp⟩
    have hb : Blanks [' '] := List.forall_mem_singleton.mpr rfl
    have hf := field_stringText name (hp.indented (depth + 1)) hb
    simpa using hf.blanks (blanks_newline (depth + 1))
  compact := by
    have hi : List.Forall₂ Field (compactFields fields) fs := by
      rw [compactFields_eq, List.forall₂_map_left_iff]
      refine h.imp ?_
      rintro ⟨name, d⟩ ⟨_, v⟩ ⟨rfl, hp⟩
      exact field_stringText name hp.compact blanks_nil
    exact item_object hi blanks_nil

end Document

end QueueBench
