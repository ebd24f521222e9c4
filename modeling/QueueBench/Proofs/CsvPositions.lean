import Mathlib.Order.Nat
import QueueBench.Proofs.Csv

/-! # Positions of records

Each byte moves a scan forward, and only the end of a record moves the start of the next one.
So the records of a stream come one behind the other. -/
namespace QueueBench.Csv

structure Position.Before (p q : Position) : Prop where
  record : p.record < q.record
  line : p.line ≤ q.line
  byte : p.byte < q.byte

theorem Position.Before.trans {p q r : Position} (h : Before p q) (h' : Before q r) :
    Before p r :=
  ⟨h.record.trans h'.record, h.line.trans h'.line, h.byte.trans h'.byte⟩

namespace Scan

variable {s : Scan}

structure Ordered (s : Scan) : Prop where
  record : s.start.record = s.here.record
  line : s.start.line ≤ s.here.line
  byte : s.start.byte ≤ s.here.byte

/-- What one byte does to the positions. Only the end of a record moves the start. -/
inductive Advances (s t : Scan) : Option Record → Prop where
  | within (start : t.start = s.start) (record : t.here.record = s.here.record)
      (line : s.here.line ≤ t.here.line) (byte : t.here.byte = s.here.byte + 1) :
      Advances s t none
  | ends (r : Record) (position : r.position = s.start) (start : t.start = t.here)
      (record : t.here.record = s.here.record + 1) (line : s.here.line ≤ t.here.line)
      (byte : t.here.byte = s.here.byte + 1) : Advances s t (some r)

theorem advances_bare (s : Scan) (b : UInt8) :
    Advances s ((s.pass b).bare b).1 ((s.pass b).bare b).2 := by
  unfold bare
  split
  · exact .within rfl rfl (Nat.le_add_right _ _) rfl
  · split
    · exact .ends _ rfl rfl rfl (Nat.le_add_right _ _) rfl
    · exact .within rfl rfl (Nat.le_add_right _ _) rfl

theorem advances_step (s : Scan) (b : UInt8) : Advances s (s.step b).1 (s.step b).2 := by
  have hb := advances_bare s b
  have hw (t : Scan) (hs : t.start = s.start) (hh : t.here = (s.pass b).here) :
      Advances s t none :=
    .within hs (by rw [hh]; rfl) (by rw [hh]; exact Nat.le_add_right _ _) (by rw [hh]; rfl)
  have ho : Advances s ((s.pass b).opening b).1 ((s.pass b).opening b).2 := by
    unfold opening
    split
    · exact hw _ rfl rfl
    · exact hb
  unfold step consume
  cases (s.pass b).phase with
  | gap =>
    dsimp only
    split
    · exact hw _ rfl rfl
    · exact ho
  | afterReturn =>
    dsimp only
    split
    · exact hw _ rfl rfl
    · exact ho
  | cellStart => exact ho
  | plain => exact hb
  | quoted =>
    dsimp only
    split
    · exact hw _ rfl rfl
    · exact hw _ rfl rfl
  | quoteSeen =>
    dsimp only
    split
    · exact hw _ rfl rfl
    · exact hb

/-- The first record stands at the start of the scan, and each further one behind the last. -/
theorem positions_records (h : s.Ordered) (bs : List UInt8) :
    (∀ r ∈ s.records bs, r.position = s.start ∨ s.start.Before r.position) ∧
      (s.records bs).Pairwise fun a b => a.position.Before b.position := by
  -- On the bytes. A step keeps the order of start and place, and a record that ends puts the
  -- start of the next one behind its own.
  induction bs generalizing s with
  | nil =>
    unfold records finish
    cases s.phase <;> simp [Scan.record]
  | cons b bs ih =>
    rw [records_cons]
    have ha := advances_step s b
    generalize (s.step b).1 = t at ha ⊢
    generalize (s.step b).2 = o at ha ⊢
    cases ha with
    | within start record line byte =>
      have ht : t.Ordered :=
        ⟨by rw [start, record, h.record], by rw [start]; exact h.line.trans line,
          by rw [start, byte]; exact h.byte.trans (Nat.le_succ _)⟩
      rw [Option.toList_none, List.nil_append, ← start]
      exact ih ht
    | ends r position start record line byte =>
      have ht : t.Ordered := ⟨by rw [start], by rw [start], by rw [start]⟩
      have hb : s.start.Before t.start := by
        rw [start]
        refine ⟨?_, h.line.trans line, ?_⟩
        · rw [record, h.record]
          exact Nat.lt_succ_self _
        · rw [byte]
          exact Nat.lt_succ_of_le h.byte
      obtain ⟨hmem, hpair⟩ := ih ht
      have hlater : ∀ a ∈ t.records bs, s.start.Before a.position := by
        intro a ha
        rcases hmem a ha with he | he
        · exact he ▸ hb
        · exact hb.trans he
      rw [Option.toList_some, List.singleton_append]
      constructor
      · intro a ha
        rcases List.mem_cons.mp ha with rfl | ha
        · exact Or.inl position
        · exact Or.inr (hlater a ha)
      · rw [List.pairwise_cons, position]
        exact ⟨hlater, hpair⟩

theorem ordered_fresh (skipped : ℕ) : (fresh skipped).Ordered := ⟨rfl, le_rfl, Nat.zero_le _⟩

end Scan

/-- Records come in the order in which they start. -/
theorem pairwise_records (bytes : List UInt8) :
    (records bytes).Pairwise fun a b => a.position.Before b.position := by
  unfold records
  split
  · exact (Scan.positions_records (Scan.ordered_fresh _) _).2
  · exact (Scan.positions_records (Scan.ordered_fresh _) _).2

theorem nodup_records (bytes : List UInt8) : (records bytes).Nodup := by
  refine (pairwise_records bytes).imp ?_
  rintro a _ h rfl
  exact lt_irrefl _ h.record

end QueueBench.Csv
