import QueueBench.Proofs.Acceptance

/-! # The run that a row spells

The cells of a row fix the values of the run that is read from it, so that acceptance, the run
and the complaint together say all that reading a row does. -/
namespace QueueBench.Row

open Number

variable {α : Type} {row : Row} {c : Column} {t : String}

/-- The text of a numeral spells its nearest binary value, in the unit that `convert` gives. -/
def SpellsQuantity (convert : Float → Float) (t : String) (y : Double) : Prop :=
  ∃ x, Numeral.Text t.toList x ∧ y = .ofFloat (convert x.toFloat)

structure Holds (row : Row) (file marker : String) (r : Run) : Prop where
  implementation : row.text? .implementation = some r.implementation
  producers : Option.Rel SpellsCount (row.text? .producers) (some r.producers)
  consumers : Option.Rel SpellsCount (row.text? .consumers) (some r.consumers)
  payload : Option.Rel SpellsCount (row.text? .payload) (some r.payload)
  throughput : Option.Rel (SpellsQuantity id) (row.text? .throughput) (some r.throughput)
  modeCell : ∀ t ∈ row.text? .mode, Text.asciiLower t ∈ r.mode.spellings
  modeName : row.text? .mode = none → (r.mode = .pooled ↔
    marker ≠ "" ∧ (Text.asciiLower marker).toList <:+: (Text.asciiLower file).toList)
  duration : Option.Rel SpellsCount (row.text? .duration) r.duration
  latency : ∀ p, Option.Rel (SpellsQuantity (· / 1000)) (row.text? (.latency p)) (r.latency.get p)
  peakMemory : Option.Rel (SpellsQuantity (· / 1024)) (row.text? .peakMemory) r.peakMemory
  maxDepth : Option.Rel SpellsCount (row.text? .maxDepth) r.maxDepth
  source : r.source = file

theorem rel_of_count {limit : ℕ} {o : Option ℕ} (h : row.count limit c = .ok o) :
    Option.Rel SpellsCount (row.text? c) o := by
  cases o with
  | some n =>
    obtain ⟨t, ht, hn⟩ := text_of_count h
    rw [ht]
    exact .some (count?_eq_some_iff.mp hn).1
  | none =>
    unfold count at h
    split at h
    · rename_i ht
      rw [ht]
      exact .none
    · split at h <;> cases h

theorem rel_of_quantity {o : Option Float} (h : row.quantity c = .ok o) (f : Float → Float) :
    Option.Rel (SpellsQuantity f) (row.text? c) (o.map fun x => .ofFloat (f x)) := by
  unfold quantity at h
  split at h
  · rename_i ht
    obtain rfl := Except.ok.inj h
    rw [ht]
    exact .none
  · rename_i t ht
    split at h
    · cases h
    · rename_i x hx
      split at h
      · cases h
      · split at h
        · cases h
        · obtain rfl := Except.ok.inj h
          rw [ht]
          exact .some ⟨x, Numeral.ofChars?_eq_some_iff.mp hx, rfl⟩

theorem count_of_duration {o : Option ℕ} (h : row.duration = .ok o) :
    row.count max32 .duration = .ok o := by
  obtain ⟨o', ho, h⟩ := Except.ok_of_bind h
  cases o' with
  | none =>
    obtain rfl := Except.ok.inj h
    exact ho
  | some n =>
    obtain ⟨m, hm, h⟩ := Except.ok_of_bind h
    obtain rfl := Except.ok.inj h
    unfold positive at hm
    split at hm
    · cases hm
    · obtain rfl := Except.ok.inj hm
      exact ho

theorem latencyAt_of_latency {l : Latency} (h : row.latency = .ok l) (p : Percentile) :
    row.latencyAt p = .ok (l.get p) := by
  obtain ⟨_, h₁, h⟩ := Except.ok_of_bind h
  obtain ⟨_, h₂, h⟩ := Except.ok_of_bind h
  obtain ⟨_, h₃, h⟩ := Except.ok_of_bind h
  obtain ⟨_, h₄, h⟩ := Except.ok_of_bind h
  obtain ⟨_, h₅, h⟩ := Except.ok_of_bind h
  obtain ⟨_, h₆, h⟩ := Except.ok_of_bind h
  obtain rfl := Except.ok.inj h
  exact match p with
    | .avg => h₁
    | .p50 => h₂
    | .p95 => h₃
    | .p99 => h₄
    | .p999 => h₅
    | .max => h₆

theorem holds_of_reads {file marker : String} {r : Run} (h : row.Reads file marker r) :
    row.Holds file marker r where
  implementation := h.implementation
  producers := rel_of_count (count_of_positiveCount h.producers)
  consumers := rel_of_count (count_of_positiveCount h.consumers)
  payload := rel_of_count h.payload
  throughput := by
    obtain ⟨x, hx, ht⟩ := h.throughput
    rw [ht]
    exact rel_of_quantity hx id
  modeCell := by
    intro t ht
    have hm := h.mode
    rw [mode, Option.mem_def.mp ht] at hm
    dsimp only at hm
    split at hm
    · rename_i m hc
      obtain rfl := Except.ok.inj hm
      rw [← trim_text ht]
      exact AllocMode.ofCell?_eq_some_iff.mp hc
    · cases hm
  modeName := by
    intro ht
    have hm := h.mode
    rw [mode, ht] at hm
    rw [← Except.ok.inj hm]
    exact AllocMode.ofFileName_eq_pooled_iff
  duration := rel_of_count (count_of_duration h.duration)
  latency := by
    intro p
    obtain ⟨o, ho, hp⟩ := Except.ok_of_bind (latencyAt_of_latency h.latency p)
    rw [← Except.ok.inj hp]
    exact rel_of_quantity ho _
  peakMemory := by
    obtain ⟨kilobytes, hk, hm⟩ := h.peakMemory
    rw [hm]
    exact rel_of_quantity hk _
  maxDepth := rel_of_count h.maxDepth
  source := h.source

theorem rel_unique {R : String → α → Prop} (hR : ∀ t a b, R t a → R t b → a = b)
    {text : Option String} {o o' : Option α} (h : Option.Rel R text o)
    (h' : Option.Rel R text o') : o = o' := by
  cases h with
  | none => cases h' with
    | none => rfl
  | some h => cases h' with
    | some h' => rw [hR _ _ _ h h']

theorem SpellsQuantity.unique {f : Float → Float} {x y : Double} (h : SpellsQuantity f t x)
    (h' : SpellsQuantity f t y) : x = y := by
  obtain ⟨a, ha, rfl⟩ := h
  obtain ⟨b, hb, rfl⟩ := h'
  rw [ha.unique hb]

theorem Holds.mode_eq {file marker : String} {r r' : Run} (h : row.Holds file marker r)
    (h' : row.Holds file marker r') : r.mode = r'.mode := by
  cases ht : row.text? .mode with
  | none =>
    have hp : r.mode = .pooled ↔ r'.mode = .pooled := (h.modeName ht).trans (h'.modeName ht).symm
    revert hp
    cases r.mode <;> cases r'.mode <;> simp
  | some t => exact AllocMode.spellings_disjoint (h.modeCell t ht) (h'.modeCell t ht)

theorem Holds.unique {file marker : String} {r r' : Run} (h : row.Holds file marker r)
    (h' : row.Holds file marker r') : r = r' := by
  have hcount : ∀ t n m, SpellsCount t n → SpellsCount t m → n = m :=
    fun _ _ _ => SpellsCount.unique
  have hquantity : ∀ f t x y, SpellsQuantity f t x → SpellsQuantity f t y → x = y :=
    fun _ _ _ _ => SpellsQuantity.unique
  have himplementation := Option.some.inj (h.implementation.symm.trans h'.implementation)
  have hmode := h.mode_eq h'
  have hproducers := Option.some.inj (rel_unique hcount h.producers h'.producers)
  have hconsumers := Option.some.inj (rel_unique hcount h.consumers h'.consumers)
  have hpayload := Option.some.inj (rel_unique hcount h.payload h'.payload)
  have hduration := rel_unique hcount h.duration h'.duration
  have hthroughput :=
    Option.some.inj (rel_unique (hquantity _) h.throughput h'.throughput)
  have hlatency : r.latency = r'.latency := by
    have hp p := rel_unique (hquantity _) (h.latency p) (h'.latency p)
    have h₁ := hp .avg
    have h₂ := hp .p50
    have h₃ := hp .p95
    have h₄ := hp .p99
    have h₅ := hp .p999
    have h₆ := hp .max
    generalize r.latency = l at h₁ h₂ h₃ h₄ h₅ h₆
    generalize r'.latency = l' at h₁ h₂ h₃ h₄ h₅ h₆
    cases l; cases l'
    simp only [Latency.get] at h₁ h₂ h₃ h₄ h₅ h₆
    rw [h₁, h₂, h₃, h₄, h₅, h₆]
  have hmemory := rel_unique (hquantity _) h.peakMemory h'.peakMemory
  have hdepth := rel_unique hcount h.maxDepth h'.maxDepth
  have hsource := h.source.trans h'.source.symm
  cases r; cases r'
  dsimp only at *
  subst himplementation hmode hproducers hconsumers hpayload hduration hthroughput hlatency
    hmemory hdepth hsource
  rfl

/-- A row is read exactly when each of its cells is accepted. The run then is the one that the
cells spell, and otherwise the complaint is about the first cell that offends. -/
theorem reads_exactly (row : Row) (file marker : String) :
    ((∃ r, row.toRun file marker = .ok r) ↔ ∀ c, row.Accepts c) ∧
    (∀ r, row.toRun file marker = .ok r ↔ (∀ c, row.Accepts c) ∧ row.Holds file marker r) ∧
    ∀ e, row.toRun file marker = .error e ↔ row.FirstOffence Column.readingOrder e := by
  have hl := row.looksAt_toRun file marker
  have hok : ∀ {r}, row.toRun file marker = .ok r →
      (∀ c, row.Accepts c) ∧ row.Holds file marker r := by
    intro r hr
    exact ⟨fun c => hl.accepts hr c c.mem_readingOrder, holds_of_reads (reads_of_toRun hr)⟩
  cases hx : row.toRun file marker with
  | ok r =>
    obtain ⟨ha, hr⟩ := hok hx
    refine ⟨iff_of_true ⟨r, rfl⟩ ha, fun r' => ⟨?_, ?_⟩, fun e => iff_of_false nofun fun hf => ?_⟩
    · rintro ⟨⟩
      exact ⟨ha, hr⟩
    · rintro ⟨-, hr'⟩
      rw [hr.unique hr']
    · obtain ⟨c, -, hn⟩ := hf.exists_not_accepts
      exact hn (ha c)
  | error e =>
    have he := hl.offence hx
    obtain ⟨c, -, hn⟩ := he.exists_not_accepts
    refine ⟨iff_of_false (not_exists.mpr fun r => nofun) fun ha => hn (ha c),
      fun r => iff_of_false nofun fun ha => hn (ha.1 c), fun e' => ⟨?_, ?_⟩⟩
    · rintro ⟨⟩
      exact he
    · intro he'
      rw [he.unique he']

end QueueBench.Row
