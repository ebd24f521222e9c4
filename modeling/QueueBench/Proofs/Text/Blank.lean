import QueueBench.Proofs.Text.Utf8

/-! # Text without the blanks at its ends

Blanks at the ends do not matter to `trim`, whether they are dropped as characters or, where
they are blanks of ASCII, already as bytes. -/
namespace QueueBench.Text

section Strip

variable {α : Type} {p : α → Bool}

theorem strip_append {before after : List α} (hb : ∀ a ∈ before, p a) (ha : ∀ a ∈ after, p a)
    (as : List α) : strip p (before ++ as ++ after) = strip p as := by
  have hr : ∀ a ∈ after.reverse, p a := fun a h => ha a (List.mem_reverse.mp h)
  unfold strip
  rw [List.append_assoc, List.dropWhile_append_of_pos hb, List.dropWhile_append]
  split
  · rename_i he
    have hn : after.dropWhile p = [] := List.dropWhile_eq_nil_iff.mpr ha
    rw [List.isEmpty_iff.mp he, hn]
  · rw [List.reverse_append, List.dropWhile_append_of_pos hr]

theorem exists_strip (p : α → Bool) (as : List α) :
    ∃ before after, as = before ++ strip p as ++ after ∧ (∀ a ∈ before, p a) ∧
      ∀ a ∈ after, p a := by
  refine ⟨as.takeWhile p, ((as.dropWhile p).reverse.takeWhile p).reverse, ?_, ?_, ?_⟩
  · unfold strip
    rw [List.append_assoc, ← List.reverse_append, List.takeWhile_append_dropWhile,
      List.reverse_reverse, List.takeWhile_append_dropWhile]
  · exact fun a h => List.mem_takeWhile_imp h
  · exact fun a h => List.mem_takeWhile_imp (List.mem_reverse.mp h)

theorem strip_strip (as : List α) : strip p (strip p as) = strip p as := by
  obtain ⟨before, after, he, hb, ha⟩ := exists_strip p as
  have hs := strip_append hb ha (strip p as)
  rw [← he] at hs
  exact hs.symm

end Strip

@[simp] theorem trim_trim (s : String) : trim (trim s) = trim s := by
  simp [trim, strip_strip]

section Bytes

variable {p : UInt8 → Bool} {bs : List UInt8} {cs : List Char}

def StandsForBlank (p : UInt8 → Bool) : Prop :=
  ∀ b, p b → b < 0x80 ∧ isBlank (scalar b 0 [])

theorem Decodes.drop_before (hp : StandsForBlank p) {before : List UInt8}
    (hb : ∀ b ∈ before, p b) (h : Decodes (before ++ bs) cs) :
    ∃ us vs, cs = us ++ vs ∧ (∀ c ∈ us, isBlank c) ∧ Decodes bs vs := by
  induction before generalizing cs with
  | nil => exact ⟨[], cs, rfl, by simp, h⟩
  | cons b before ih =>
    obtain ⟨hl, hk⟩ := hp b (hb b List.mem_cons_self)
    have hd : Decodes ([] ++ b :: (before ++ bs)) cs := h
    obtain ⟨us, vs, rfl, hn, hr⟩ := hd.cut hl
    cases hn
    obtain ⟨us, vs, rfl, hu, hv⟩ := ih (fun b h => hb b (List.mem_cons_of_mem _ h)) hr
    refine ⟨scalar b 0 [] :: us, vs, rfl, ?_, hv⟩
    intro c hc
    rcases List.mem_cons.mp hc with rfl | hc
    · exact hk
    · exact hu c hc

theorem Decodes.drop_after (hp : StandsForBlank p) {after : List UInt8}
    (ha : ∀ b ∈ after, p b) (h : Decodes (bs ++ after) cs) :
    ∃ us vs, cs = us ++ vs ∧ Decodes bs us ∧ ∀ c ∈ vs, isBlank c := by
  rcases after with _ | ⟨b, after⟩
  · exact ⟨cs, [], by simp, by simpa using h, by simp⟩
  · obtain ⟨hl, hk⟩ := hp b (ha b List.mem_cons_self)
    obtain ⟨us, vs, rfl, hu, hv⟩ := h.cut hl
    refine ⟨us, scalar b 0 [] :: vs, rfl, hu, ?_⟩
    have hr : Decodes (after ++ []) vs := by simpa using hv
    obtain ⟨ws, _, rfl, hw, hn⟩ := hr.drop_before hp fun b h => ha b (List.mem_cons_of_mem _ h)
    cases hn
    intro c hc
    rcases List.mem_cons.mp hc with rfl | hc
    · exact hk
    · exact hw c (by simpa using hc)

/-- Bytes that lose their blanks stand for text that `trim` cannot tell from the whole. -/
theorem decode_strip (hp : StandsForBlank p) {s : String} (h : decode bs = .ok s) :
    ∃ t, decode (strip p bs) = .ok t ∧ trim t = trim s := by
  obtain ⟨cs, hd, rfl⟩ := ok_of_map h
  have hd := decodes_of_decodeAt hd
  obtain ⟨before, after, he, hb, ha⟩ := exists_strip p bs
  rw [he, List.append_assoc] at hd
  obtain ⟨us, vs, rfl, hu, hd⟩ := hd.drop_before hp hb
  obtain ⟨vs, ws, rfl, hd, hw⟩ := hd.drop_after hp ha
  refine ⟨String.ofList vs, ?_, ?_⟩
  · rw [decode, decodeAt_of_decodes hd]
    rfl
  · simp only [trim, String.toList_ofList]
    rw [← List.append_assoc, strip_append hu hw]

end Bytes

end QueueBench.Text
