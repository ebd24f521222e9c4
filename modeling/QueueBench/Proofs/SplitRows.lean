import QueueBench.Proofs.Sweep

/-! # Split and joint scaling charts

A scaling chart shows all modes in one row of panels or each mode in a row of its own. The
two layouts group the runs by other keys, but they draw the same lines. Only the label of a
line differs, since a row of one mode need not name it. -/
namespace QueueBench

def SeriesKey.bare (k : SeriesKey) : SeriesKey := ⟨k.implementation, none⟩

def SeriesKey.fits (m : AllocMode) (k : SeriesKey) : Bool := k.mode.getD m = m

section Keys

variable {runs : List Run} {m : AllocMode}

theorem fits_key_iff (hm : m ∈ modesOf runs) {r : Run} (hr : r ∈ runs) :
    ((Grouping.infer runs).key r).fits m ↔ r.mode = m := by
  cases hg : Grouping.infer runs with
  | byImplementation =>
    obtain ⟨s, hs, rfl⟩ := mem_modesOf.mp hm
    have hu := Grouping.infer_eq_byImplementation_iff.mp hg r hr s hs
    simp [Grouping.key, SeriesKey.fits, hu]
  | byImplementationAndMode => exact decide_eq_true_iff

theorem implementation_key (g : Grouping) (r : Run) :
    (g.key r).implementation = r.implementation := by
  cases g <;> rfl

theorem bare_key (g : Grouping) (r : Run) : (g.key r).bare = Grouping.byImplementation.key r := by
  cases g <;> rfl

/-- In the row of a mode, the runs of an implementation are the runs of its series. -/
theorem key_eq_iff (hm : m ∈ modesOf runs) {r s : Run} (hr : r ∈ runs) (hs : s ∈ runs)
    (hk : s.mode = m) :
    (Grouping.infer runs).key r = (Grouping.infer runs).key s ↔
      r.mode = m ∧ Grouping.byImplementation.key r = Grouping.byImplementation.key s := by
  constructor
  · intro he
    have hrm := (fits_key_iff hm hr).mp (he ▸ (fits_key_iff hm hs).mpr hk)
    refine ⟨hrm, ?_⟩
    rw [← bare_key (Grouping.infer runs), ← bare_key (Grouping.infer runs), he]
  · rintro ⟨hrm, he⟩
    have hi : r.implementation = s.implementation := congrArg SeriesKey.implementation he
    rw [Grouping.key_eq, Grouping.key_eq, hi, hrm, hk]

theorem map_bare_keys (hm : m ∈ modesOf runs) :
    (((Grouping.infer runs).keys runs).filter (SeriesKey.fits m)).map SeriesKey.bare =
      Grouping.byImplementation.keys (runs.filter fun r => r.mode = m) := by
  have ho : (((Grouping.infer runs).keys runs).filter (SeriesKey.fits m)).Pairwise
      fun a b => SeriesKey.le a b :=
    (Grouping.pairwise_keys _ runs).filter _
  refine SeriesKey.orders.eq_of_mem_iff ?_ (Grouping.pairwise_keys _ _) ?_
    (Grouping.nodup_keys _ _) ?_
  · rw [List.pairwise_map]
    refine ho.imp fun h => ?_
    rw [SeriesKey.le_iff] at h ⊢
    exact h.imp_right fun h => ⟨h.1, Nat.le_refl _⟩
  · refine List.Nodup.map_on ?_ ((Grouping.nodup_keys _ runs).filter _)
    intro a ha b hb he
    rw [List.mem_filter, Grouping.mem_keys] at ha hb
    obtain ⟨⟨r, hr, rfl⟩, ha⟩ := ha
    obtain ⟨⟨s, hs, rfl⟩, hb⟩ := hb
    rw [fits_key_iff hm hr] at ha
    rw [fits_key_iff hm hs] at hb
    rw [bare_key, bare_key] at he
    exact (key_eq_iff hm hr hs hb).mpr ⟨ha, he⟩
  · intro k
    rw [List.mem_map, Grouping.mem_keys]
    constructor
    · rintro ⟨k, hk, rfl⟩
      rw [List.mem_filter, Grouping.mem_keys] at hk
      obtain ⟨⟨r, hr, rfl⟩, hf⟩ := hk
      rw [fits_key_iff hm hr] at hf
      exact ⟨r, List.mem_filter.mpr ⟨hr, by simpa using hf⟩, (bare_key _ r).symm⟩
    · rintro ⟨r, hr, rfl⟩
      obtain ⟨hr, hrm⟩ := List.mem_filter.mp hr
      refine ⟨(Grouping.infer runs).key r, ?_, bare_key _ r⟩
      rw [List.mem_filter, Grouping.mem_keys, fits_key_iff hm hr]
      exact ⟨⟨r, hr, rfl⟩, by simpa using hrm⟩

/-- A series has the same runs and the same style in both layouts. -/
theorem ofKey_row {x : XAxis} {styles : StyleTable} (hm : m ∈ modesOf runs) {s : Run}
    (hs : s ∈ runs) (hk : s.mode = m) :
    Series.ofKey (runs.filter fun r => r.mode = m) .byImplementation x styles
        (Grouping.byImplementation.key s) =
      { Series.ofKey runs (Grouping.infer runs) x styles ((Grouping.infer runs).key s) with
        key := Grouping.byImplementation.key s } := by
  have hf : (runs.filter fun r => r.mode = m).filter
        (fun r => Grouping.byImplementation.key r = Grouping.byImplementation.key s) =
      runs.filter fun r => (Grouping.infer runs).key r = (Grouping.infer runs).key s := by
    rw [List.filter_filter]
    refine List.filter_congr fun r hr => ?_
    rw [Bool.eq_iff_iff, Bool.and_comm, Bool.and_eq_true, decide_eq_true_eq, decide_eq_true_eq,
      decide_eq_true_eq, key_eq_iff hm hr hs hk]
  have hshared : Series.sharedMode (Series.ofKey runs (Grouping.infer runs) x styles
      ((Grouping.infer runs).key s)).runs = m := by
    apply Series.sharedMode_of_uniform
    · exact List.ne_nil_of_mem (Series.mem_ofKey.mpr ⟨hs, rfl⟩)
    · intro r hr
      obtain ⟨hr, hrk⟩ := Series.mem_ofKey.mp hr
      exact ((key_eq_iff hm hr hs hk).mp hrk).1
  have hmode : ((Grouping.infer runs).key s).mode.getD m = m := by
    simpa [SeriesKey.fits] using (fits_key_iff hm hs).mpr hk
  have hi : (Grouping.byImplementation.key s).implementation =
      ((Grouping.infer runs).key s).implementation :=
    (implementation_key _ s).symm
  have hn : (Grouping.byImplementation.key s).mode = none := rfl
  dsimp only [Series.ofKey] at hshared ⊢
  rw [hf, hi, hn, Option.getD_none, hshared, hmode]

end Keys

namespace Sweep

variable {s : Sweep} {runs : List Run} {styles : StyleTable}

def implementationAt? (s : Sweep) (runs : List Run) (mode : AllocMode) (spot : Place) :
    Option String :=
  ((s.latest runs).map Run.implementation).find? fun i => s.place runs i mode = some spot

/-- The line of a series of this mode, under the name of its implementation alone. -/
def bareLine? (s : Sweep) (runs : List Run) (mode : AllocMode) (row : ℕ) (l : Line) :
    Option Line :=
  (s.implementationAt? runs mode ⟨row, l.label⟩).map fun i => { l with label := i }

theorem implementationAt?_of_place {r : Run} {spot : Place} (hr : r ∈ s.latest runs)
    (h : s.place runs r.implementation r.mode = some spot) (m : AllocMode) :
    s.implementationAt? runs m spot = if r.mode = m then some r.implementation else none := by
  unfold implementationAt?
  split
  · rename_i hm
    subst m
    cases hf : ((s.latest runs).map Run.implementation).find? fun i =>
        s.place runs i r.mode = some spot with
    | none =>
      have hn := List.find?_eq_none.mp hf r.implementation (List.mem_map_of_mem hr)
      simp [h] at hn
    | some i =>
      have hi := List.find?_some hf
      rw [(place_injective (of_decide_eq_true hi) h).1]
  · rename_i hm
    rw [List.find?_eq_none]
    intro i _ hi
    exact hm (place_injective (of_decide_eq_true hi) h).2.symm

theorem filter_map_eq_filterMap {α β : Type} {ks : List α} {p : α → Bool} {f g : α → β}
    {shown : β → Bool} {b : β → Option β}
    (h : ∀ k ∈ ks, (p k → shown (g k) = shown (f k)) ∧
      b (f k) = if p k then some (g k) else none) :
    ((ks.filter p).map g).filter shown = ((ks.map f).filter shown).filterMap b := by
  induction ks with
  | nil => rfl
  | cons k ks ih =>
    have ih := ih fun k hk => h k (List.mem_cons_of_mem _ hk)
    obtain ⟨hv, hb⟩ := h k List.mem_cons_self
    by_cases hp : p k <;> by_cases hs : shown (f k) <;> simp_all

/-- The row of a mode draws the lines of that mode, in order, under their bare names. -/
theorem lines_row (hs : s.splitByMode = false) {m : AllocMode}
    (hm : m ∈ modesOf (s.latest runs)) (q : Metric) :
    s.lines styles ((s.latest runs).filter fun r => r.mode = m) q =
      (s.lines styles (s.latest runs) q).filterMap (s.bareLine? runs m 0) := by
  have hrow : (s.rows runs)[0]? = some (s.latest runs) := by
    rw [rows_of_joint hs]
    rfl
  unfold lines metricLines group
  rw [Grouping.infer_filter_mode, ← map_bare_keys hm, List.map_map, List.map_map, List.map_map]
  -- The keys stand in one order in both layouts, so that each line has one counterpart.
  apply filter_map_eq_filterMap
  intro k hk
  obtain ⟨r, hr, rfl⟩ := Grouping.mem_keys.mp hk
  have hp := implementationAt?_of_place hr (place_of_mem_row hrow hr) m
  have hf := fits_key_iff hm hr
  simp only [Function.comp_apply, bare_key]
  by_cases hk : r.mode = m
  · rw [if_pos hk] at hp
    rw [ofKey_row hm hr hk, if_pos (hf.mpr hk)]
    refine ⟨fun _ => rfl, ?_⟩
    exact congrArg (Option.map _) hp
  · rw [if_neg hk] at hp
    have hn : ¬ ((Grouping.infer (s.latest runs)).key r).fits m := fun h => hk (hf.mp h)
    refine ⟨fun h => (hn h).elim, ?_⟩
    rw [if_neg hn]
    exact congrArg (Option.map _) hp

end Sweep

namespace Chart

variable (runs : List Run) (payload : Option ℕ) (axis : ThreadAxis) (metrics : List Metric)
variable (styles : StyleTable)

def joint : Sweep := .scaling payload ⟨axis, false, metrics⟩

theorem scaling_outcome :
    (∃ e, scaling runs payload ⟨axis, true, metrics⟩ styles = .error e ∧
      scaling runs payload ⟨axis, false, metrics⟩ styles = .error e) ∨
    ∃ c d, scaling runs payload ⟨axis, true, metrics⟩ styles = .ok c ∧
      scaling runs payload ⟨axis, false, metrics⟩ styles = .ok d := by
  cases payload with
  | none => exact Or.inl ⟨_, rfl, rfl⟩
  | some payload =>
    simp only [scaling_eq]
    by_cases hr : scalingRuns runs payload axis = []
    · exact Or.inl ⟨_, if_pos hr, if_pos hr⟩
    by_cases hm : Metric.withData (scalingRuns runs payload axis) metrics = []
    · exact Or.inl ⟨_, (if_neg hr).trans (if_pos hm), (if_neg hr).trans (if_pos hm)⟩
    · exact Or.inr ⟨_, _, (if_neg hr).trans (if_neg hm), (if_neg hr).trans (if_neg hm)⟩

/-- Both layouts fail alike or show the same data. -/
theorem scaling_split_eq_joint :
    (∃ e, scaling runs payload ⟨axis, true, metrics⟩ styles = .error e ∧
      scaling runs payload ⟨axis, false, metrics⟩ styles = .error e) ∨
    ∃ c d, scaling runs payload ⟨axis, true, metrics⟩ styles = .ok c ∧
      scaling runs payload ⟨axis, false, metrics⟩ styles = .ok d ∧
      c.columns = d.columns ∧ d.panels.length = d.columns ∧
      c.panels.length = (modesOf ((joint payload axis metrics).latest runs)).length * c.columns ∧
      ∀ row m column, (modesOf ((joint payload axis metrics).latest runs))[row]? = some m →
        column < c.columns →
        ∃ ls, (d.panels[column]?).map Panel.body = some (.lines ls) ∧
          (c.panels[row * c.columns + column]?).map Panel.body =
            some (.lines (ls.filterMap ((joint payload axis metrics).bareLine? runs m 0))) := by
  refine (scaling_outcome runs payload axis metrics styles).imp_right ?_
  rintro ⟨c, d, hc, hd⟩
  have hsplit : (Sweep.scaling payload ⟨axis, true, metrics⟩).chart runs styles = .ok c := hc
  have hjoint : (joint payload axis metrics).chart runs styles = .ok d := hd
  have hcc := (Sweep.panels_of_chart hsplit).1
  have hdc := (Sweep.panels_of_chart hjoint).1
  have hrows : (Sweep.scaling payload ⟨axis, true, metrics⟩).rows runs =
      (modesOf ((joint payload axis metrics).latest runs)).map fun m =>
        ((joint payload axis metrics).latest runs).filter fun r => r.mode = m := rfl
  have hrow : (joint payload axis metrics).rows runs =
      [(joint payload axis metrics).latest runs] := rfl
  refine ⟨c, d, hc, hd, hcc.trans hdc.symm, ?_, ?_, ?_⟩
  · rw [Sweep.length_panels hjoint, hrow, List.length_singleton, Nat.one_mul]
  · rw [Sweep.length_panels hsplit, hrows, List.length_map]
  · intro row m column hm hcol
    obtain ⟨q, hq⟩ : ∃ q, ((joint payload axis metrics).metrics runs)[column]? = some q :=
      ⟨_, List.getElem?_eq_getElem (hcc ▸ hcol)⟩
    refine ⟨(joint payload axis metrics).lines styles
      ((joint payload axis metrics).latest runs) q, ?_, ?_⟩
    · have hp := Sweep.getElem?_panels 0 hjoint hq
      rw [hrow, Nat.zero_mul, Nat.zero_add] at hp
      have hb := congrArg (Option.map Prod.snd) hp
      rwa [Option.map_map] at hb
    · have hp := Sweep.getElem?_panels row hsplit hq
      rw [hrows, List.getElem?_map, hm] at hp
      have hb := congrArg (Option.map Prod.snd) hp
      rw [Option.map_map] at hb
      rw [← Sweep.lines_row rfl (List.mem_of_getElem? hm)]
      exact hb

end Chart

end QueueBench
