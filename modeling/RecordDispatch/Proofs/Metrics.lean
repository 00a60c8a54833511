import RecordDispatch.Report.Metrics

/-!
# What metrics add up to

`Metrics` is a list that is searched and changed in place.  Here it is known by
what it holds for a series: `value?_update` says what a change does to that,
`counter_add` what a measurement adds to a counter, and `counter_ofList` that a
counter holds the sum of what was counted.  A gauge holds what it was set to
last (`value?_foldl_gauge`).
-/

namespace RecordDispatch.Report

/-- The series of a measurement. -/
def Measurement.series : Measurement → Series
  | .count series _ => series
  | .gauge series _ => series
  | .observe series => series

/-- What a measurement adds to a counter. -/
def Measurement.added (series : Series) : Measurement → Nat
  | .count s amount => if s = series then amount else 0
  | _ => 0

/-- Whether a measurement counts, or is of another series. -/
def Measurement.Counts (series : Series) : Measurement → Prop
  | .count _ _ => True
  | m => m.series ≠ series

/-- What measurements add to a counter. -/
def added (series : Series) : List Measurement → Nat
  | [] => 0
  | m :: ms => m.added series + added series ms

theorem added_append (series : Series) (ms ns : List Measurement) :
    added series (ms ++ ns) = added series ms + added series ns := by
  induction ms with
  | nil => exact (Nat.zero_add _).symm
  | cons m ms ih => rw [List.cons_append, added, ih, added, Nat.add_assoc]

namespace Metrics

variable (series s : Series) (kind : Kind) (f : Int → Int)

theorem value?_nil : value? [] s = none := rfl

theorem value?_cons (e : Series × Kind × Int) (m : Metrics) :
    value? (e :: m) s = if e.1 = s then some e.2.2 else m.value? s := by
  unfold value?
  rw [List.find?_cons]
  by_cases h : e.1 = s <;> simp [h]

/-- A change concerns its own series, which starts at zero. -/
theorem value?_update (m : Metrics) :
    (m.update s kind f).value? series =
      if s = series then some (f ((m.value? s).getD 0)) else m.value? series := by
  induction m with
  | nil => simp [update, value?_cons, value?_nil]
  | cons e m ih =>
    obtain ⟨t, k, v⟩ := e
    by_cases hs : t = s <;> by_cases hseries : s = series <;> by_cases ht : t = series <;>
      simp_all [update, value?_cons]

/-- What the metrics hold for a counter. -/
def counter (m : Metrics) : Int :=
  (m.value? series).getD 0

theorem counter_add (m : Metrics) {x : Measurement} (hx : x.Counts series) :
    (m.add x).counter series = m.counter series + x.added series := by
  unfold counter
  cases x with
  | count s n =>
    by_cases hs : s = series <;> simp [add, value?_update, Measurement.added, hs]
  | gauge s v =>
    have hs : s ≠ series := hx
    simp [add, value?_update, Measurement.added, hs]
  | observe s =>
    have hs : s ≠ series := hx
    simp [add, value?_update, Measurement.added, hs]

/-- A counter holds what was counted. -/
theorem counter_ofList {ms : List Measurement} (hms : ∀ x ∈ ms, x.Counts series) :
    (ofList ms).counter series = added series ms := by
  suffices ∀ m : Metrics, (ms.foldl add m).counter series = m.counter series + added series ms from
    (this []).trans (Int.zero_add _)
  induction ms with
  | nil => exact fun m => (Int.add_zero _).symm
  | cons x ms ih =>
    obtain ⟨hx, hrest⟩ := List.forall_mem_cons.mp hms
    intro m
    rw [List.foldl_cons, ih hrest, m.counter_add series hx, added]
    omega

variable {series}

theorem value?_add_of_ne (m : Metrics) {x : Measurement} (hx : x.series ≠ series) :
    (m.add x).value? series = m.value? series := by
  cases x <;> exact (value?_update _ _ _ _ m).trans (if_neg hx)

/-- Measurements of other series leave a series as it is. -/
theorem value?_foldl_of_ne {ms : List Measurement} (hms : ∀ x ∈ ms, x.series ≠ series)
    (m : Metrics) : (ms.foldl add m).value? series = m.value? series := by
  induction ms generalizing m with
  | nil => rfl
  | cons x ms ih =>
    obtain ⟨hx, hrest⟩ := List.forall_mem_cons.mp hms
    rw [List.foldl_cons, ih hrest, m.value?_add_of_ne hx]

/-- A gauge that is set, and to one value only, has this value. -/
theorem value?_foldl_gauge {ms : List Measurement} {v : Int} (hset : .gauge series v ∈ ms)
    (hms : ∀ x ∈ ms, x.series = series → x = .gauge series v) (m : Metrics) :
    (ms.foldl add m).value? series = some v := by
  induction ms generalizing m with
  | nil => exact absurd hset List.not_mem_nil
  | cons x ms ih =>
    obtain ⟨hx, hrest⟩ := List.forall_mem_cons.mp hms
    by_cases hlater : .gauge series v ∈ ms
    · exact ih hlater hrest _
    · -- No later measurement is of the series, so the first one decides.
      obtain rfl := (List.mem_cons.mp hset).resolve_right hlater
      rw [List.foldl_cons, value?_foldl_of_ne fun y hy hseries => hlater (hrest y hy hseries ▸ hy)]
      exact (value?_update _ _ _ _ m).trans (if_pos rfl)

end Metrics

/-- What events add up to after others. -/
theorem metrics_append {ε : Type} [Reported ε] (es fs : List ε) :
    metrics (es ++ fs) = (fs.flatMap Reported.measurements).foldl Metrics.add (metrics es) := by
  simp only [metrics, Metrics.ofList, List.flatMap_append, List.foldl_append]

end RecordDispatch.Report
