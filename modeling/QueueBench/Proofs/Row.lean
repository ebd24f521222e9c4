import Mathlib.Algebra.Group.Nat.Defs
import QueueBench.Row

/-! # Ranges of a row

A row gives a run only when each of its steps succeeds, so what the single cells promise
holds of the run. -/
namespace QueueBench

theorem Except.ok_of_bind {ε α β : Type} {step : Except ε α} {rest : α → Except ε β} {b : β}
    (h : step >>= rest = .ok b) : ∃ a, step = .ok a ∧ rest a = .ok b := by
  rcases step with e | a
  · cases h
  · exact ⟨a, rfl, h⟩

/-- The ranges of the counts in a result table. -/
def Run.Fits (r : Run) : Prop :=
  r.producers < 2 ^ 32 ∧ r.consumers < 2 ^ 32 ∧ r.payload < 2 ^ 32

instance : DecidablePred Run.Fits := fun _ => inferInstanceAs (Decidable (_ ∧ _ ∧ _))

namespace Row

open Number (max32 max64)

variable {row : Row} {c : Column} {n : Nat}

theorem required_eq_ok {α : Type} {o : Option α} {a : α} (h : required c o = .ok a) :
    o = some a := by
  cases o with
  | none => cases h
  | some b => rw [Except.ok.inj h]

theorem cell_of_text {value : String} (h : row.text? c = some value) :
    ∃ i cell, row.schema.index? c = some i ∧ row.cells[i]? = some cell ∧
      Text.trim cell = value := by
  obtain ⟨i, hi, h⟩ := Option.bind_eq_some_iff.mp h
  obtain ⟨cell, hc, h⟩ := Option.bind_eq_some_iff.mp h
  dsimp only at h
  split at h
  · cases h
  · exact ⟨i, cell, hi, hc, Option.some.inj h⟩

theorem text_of_count {limit : Nat} (h : row.count limit c = .ok (some n)) :
    ∃ value, row.text? c = some value ∧ Number.count? limit value = some n := by
  unfold count at h
  split at h
  · cases h
  rename_i value ht
  split at h
  · rename_i hc
    cases h
    exact ⟨value, ht, hc⟩
  · cases h

theorem count_le {limit : Nat} (h : row.count limit c = .ok (some n)) : n ≤ limit := by
  obtain ⟨value, _, hc⟩ := text_of_count h
  simpa using (Option.filter_eq_some_iff.mp hc).2

theorem count_of_positiveCount (h : row.positiveCount c = .ok n) :
    row.count max32 c = .ok (some n) := by
  obtain ⟨o, ho, h⟩ := Except.ok_of_bind h
  obtain ⟨m, hm, h⟩ := Except.ok_of_bind h
  unfold positive at h
  split at h
  · cases h
  · obtain rfl := Except.ok.inj h
    obtain rfl := required_eq_ok hm
    exact ho

theorem positiveCount_le (h : row.positiveCount c = .ok n) : n ≤ Number.max32 :=
  count_le (count_of_positiveCount h)

structure Reads (row : Row) (file marker : String) (r : Run) : Prop where
  implementation : row.text? .implementation = some r.implementation
  producers : row.positiveCount .producers = .ok r.producers
  consumers : row.positiveCount .consumers = .ok r.consumers
  payload : row.count max32 .payload = .ok (some r.payload)
  throughput : ∃ x, row.quantity .throughput = .ok (some x) ∧ r.throughput = .ofFloat x
  mode : row.mode file marker = .ok r.mode
  duration : row.duration = .ok r.duration
  latency : row.latency = .ok r.latency
  peakMemory : ∃ kilobytes, row.quantity .peakMemory = .ok kilobytes ∧
    r.peakMemory = kilobytes.map fun x => .ofFloat (x / 1024)
  maxDepth : row.count max64 .maxDepth = .ok r.maxDepth
  source : r.source = file

theorem reads_of_toRun {file marker : String} {r : Run} (h : row.toRun file marker = .ok r) :
    row.Reads file marker r := by
  obtain ⟨implementation, hi, h⟩ := Except.ok_of_bind h
  obtain ⟨producers, hp, h⟩ := Except.ok_of_bind h
  obtain ⟨consumers, hc, h⟩ := Except.ok_of_bind h
  obtain ⟨cell, hq, h⟩ := Except.ok_of_bind h
  obtain ⟨payload, hr, h⟩ := Except.ok_of_bind h
  obtain ⟨cell', ht, h⟩ := Except.ok_of_bind h
  obtain ⟨throughput, hr', h⟩ := Except.ok_of_bind h
  obtain ⟨mode, hm, h⟩ := Except.ok_of_bind h
  obtain ⟨duration, hd, h⟩ := Except.ok_of_bind h
  obtain ⟨latency, hl, h⟩ := Except.ok_of_bind h
  obtain ⟨kilobytes, hk, h⟩ := Except.ok_of_bind h
  obtain ⟨maxDepth, hx, h⟩ := Except.ok_of_bind h
  obtain rfl := Except.ok.inj h
  obtain rfl := required_eq_ok hr
  obtain rfl := required_eq_ok hr'
  exact ⟨required_eq_ok hi, hp, hc, hq, ⟨throughput, ht, rfl⟩, hm, hd, hl, ⟨kilobytes, hk, rfl⟩, hx,
    rfl⟩

/-- Every run that is read keeps its counts in range. -/
theorem fits_of_toRun {file marker : String} {r : Run} (h : row.toRun file marker = .ok r) :
    r.Fits := by
  have hr := reads_of_toRun h
  have hp := positiveCount_le hr.producers
  have hc := positiveCount_le hr.consumers
  have hq := count_le hr.payload
  have hmax : Number.max32 = 2 ^ 32 - 1 := rfl
  refine ⟨?_, ?_, ?_⟩ <;> omega

end Row

end QueueBench
