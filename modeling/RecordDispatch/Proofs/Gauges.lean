import Mathlib.Data.List.Nodup
import RecordDispatch.Proofs.Metrics
import RecordDispatch.Proofs.Publications
import RecordDispatch.Proofs.Snapshot

/-!
# What the gauges of the monitor show

A publication sets the gauges of every topic of which the monitor has an entry
and of every topic of which a poll has ever returned records.  After it the
gauges of these topics are right, whatever has happened before, and those of
the others are left as they were (`gauges_after_publication`).  One of these
others may well have had entries of the monitor before, by a global pause, and
then its gauges still count them (`gauge_left_behind`).
-/

namespace RecordDispatch

open Dispatch

/-! ## Measurements -/

namespace Monitor

open Report

/-- The names of the gauges of a topic. -/
def gaugeNames : List String :=
  (gauges "" {}).map (·.series.name)

/-- A gauge that each topic has, with what it shows of the totals of the
topic. -/
def IsGauge (name : String) (value : Totals → Nat) : Prop :=
  ∀ topic t, Measurement.gauge (own name [("topic", topic)]) (value t) ∈ gauges topic t

/-- The gauges of a topic are of no other topic. -/
theorem topic_of_mem_gauges {topic other name : String} {t : Totals} {x : Measurement}
    (hx : x ∈ gauges other t) (hseries : x.series = own name [("topic", topic)]) :
    topic = other := by
  have hlabels : x.series.labels = [("topic", other)] := by
    simp only [gauges, List.mem_cons, List.not_mem_nil, or_false] at hx
    obtain rfl | rfl | rfl | rfl | rfl := hx <;> rfl
  have hpairs : [("topic", topic)] = [("topic", other)] :=
    (congrArg Series.labels hseries).symm.trans hlabels
  exact (Prod.mk.inj (List.cons.inj hpairs).1).2

/-- No topic has two gauges of one name. -/
theorem eq_of_mem_gauges {topic : String} {t : Totals} {x y : Measurement}
    (hx : x ∈ gauges topic t) (hy : y ∈ gauges topic t)
    (hname : x.series.name = y.series.name) : x = y := by
  have hnames : (gauges topic t).map (·.series.name) = gaugeNames := rfl
  have hdistinct : gaugeNames.Nodup := by decide
  exact List.inj_on_of_nodup_map (hnames ▸ hdistinct) hx hy hname

/-- Whether a measurement is none of the gauges of topics. -/
def IsForeign (x : Measurement) : Prop :=
  x.series.name ∉ gaugeNames

section Published

variable {name : String} (topic : String) (metrics : Metrics)

/-- A publication leaves the gauges of a topic that is not in it. -/
theorem value?_unpublished {totals : List (String × Totals)} (h : ∀ t, (topic, t) ∉ totals) :
    ((totals.flatMap fun e => gauges e.1 e.2).foldl Metrics.add metrics).value?
        (own name [("topic", topic)]) = metrics.value? (own name [("topic", topic)]) := by
  refine Metrics.value?_foldl_of_ne (fun x hx hseries => ?_) metrics
  obtain ⟨⟨other, t⟩, he, hx⟩ := List.mem_flatMap.mp hx
  obtain rfl := topic_of_mem_gauges hx hseries
  exact h t he

variable {value : Totals → Nat} (hgauge : IsGauge name value)
include hgauge

theorem IsGauge.name_mem : (own name [("topic", topic)]).name ∈ gaugeNames :=
  List.mem_map.mpr ⟨_, hgauge "" {}, rfl⟩

theorem value?_foreign {ms : List Measurement} (hms : ∀ x ∈ ms, IsForeign x) :
    (ms.foldl Metrics.add metrics).value? (own name [("topic", topic)]) =
      metrics.value? (own name [("topic", topic)]) := by
  refine Metrics.value?_foldl_of_ne (fun x hx hseries => hms x hx ?_) metrics
  rw [hseries]
  exact hgauge.name_mem topic

/-- A publication sets the gauges of a topic to its totals. -/
theorem value?_published {totals : List (String × Totals)} {t : Totals}
    (hmem : (topic, t) ∈ totals) (hone : ∀ u, (topic, u) ∈ totals → u = t) :
    ((totals.flatMap fun e => gauges e.1 e.2).foldl Metrics.add metrics).value?
        (own name [("topic", topic)]) = some (value t : Int) := by
  refine Metrics.value?_foldl_gauge (List.mem_flatMap.mpr ⟨_, hmem, hgauge topic t⟩)
    (fun x hx hseries => ?_) metrics
  obtain ⟨⟨other, u⟩, he, hx⟩ := List.mem_flatMap.mp hx
  obtain rfl := topic_of_mem_gauges hx hseries
  obtain rfl := hone u he
  exact eq_of_mem_gauges hx (hgauge topic u) (congrArg Series.name hseries)

end Published

/-! ### Measurements of others -/

theorem isForeign_of_own {name : String} {labels : List (String × String)} {x : Measurement}
    (hseries : x.series = own name labels)
    (h : "partition_dispatcher_" ++ name ∉ gaugeNames) : IsForeign x := by
  unfold IsForeign
  rw [hseries]
  exact h

section Foreign

variable {x : Measurement}

theorem isForeign_ledger {e : Ledger.Event} (hx : x ∈ Reported.measurements e) : IsForeign x := by
  cases e with
  | advanced => exact absurd hx List.not_mem_nil
  | stale =>
    rw [List.mem_singleton.mp hx]
    exact isForeign_of_own rfl (by decide)

theorem isForeign_commit {e : Commit.Event} (hx : x ∈ Reported.measurements e) :
    IsForeign x := by
  cases e <;>
  · rw [List.mem_singleton.mp hx]
    exact isForeign_of_own rfl (by decide)

theorem isForeign_gate {e : Gate.Event} (hx : x ∈ Reported.measurements e) : IsForeign x := by
  cases e with
  | paused | resumed =>
    rw [List.mem_singleton.mp hx]
    exact isForeign_of_own rfl (by decide)
  | _ => exact absurd hx List.not_mem_nil

theorem isForeign_handler {e : Handler.Event} (hx : x ∈ Reported.measurements e) :
    IsForeign x := by
  cases e with
  | handled =>
    rw [List.mem_singleton.mp hx]
    exact isForeign_of_own rfl (by decide)
  | _ => exact absurd hx List.not_mem_nil

theorem isForeign_processor {e : Processor.Event} (hx : x ∈ Reported.measurements e) :
    IsForeign x := by
  cases e with
  | handler e => exact isForeign_handler hx
  | completed =>
    rw [List.mem_singleton.mp hx]
    exact isForeign_of_own rfl (by decide)
  | _ => exact absurd hx List.not_mem_nil

theorem isForeign_workers {e : Workers.Event} (hx : x ∈ Reported.measurements e) :
    IsForeign x := by
  cases e with
  | processor _ e => exact isForeign_processor hx
  | capped => exact absurd hx List.not_mem_nil
  | _ =>
    rw [List.mem_singleton.mp hx]
    exact isForeign_of_own rfl (by decide)

end Foreign
end Monitor

namespace Dispatch.Event

open Report in
/-- Only publications set the gauges of topics. -/
theorem isForeign_of_not_isPublication {e : Event} (h : e.isPublication = false)
    {x : Measurement} (hx : x ∈ Reported.measurements e) : Monitor.IsForeign x := by
  cases e with
  | monitor e => exact absurd h nofun
  | ledger e => exact Monitor.isForeign_ledger hx
  | commit e => exact Monitor.isForeign_commit hx
  | gate e => exact Monitor.isForeign_gate hx
  | workers e => exact Monitor.isForeign_workers hx
  | polled batches =>
    have hx : x ∈ if recordCount batches = 0 then []
        else [.count (own "records_polled_total") (recordCount batches)] := hx
    split at hx
    · exact absurd hx List.not_mem_nil
    · rw [List.mem_singleton.mp hx]
      exact Monitor.isForeign_of_own rfl (by decide)
  | pollFailed | started | startedSingles | deferred | active | revoking | drained
  | revokeCommitted | revokeCommitFailed | assigned =>
    rw [List.mem_singleton.mp hx]
    exact Monitor.isForeign_of_own rfl (by decide)
  | _ => exact absurd hx List.not_mem_nil

end Dispatch.Event

/-! ## Gauges of a dispatcher -/

namespace Dispatcher

variable {ω : Type}

/-- The value of a gauge of a topic, if it was ever set. -/
def gauge? (d : Dispatcher ω) (name topic : String) : Option Int :=
  (Report.metrics d.history).value? (Report.own name [("topic", topic)])

section Gauge

variable {name : String} {value : Monitor.Totals → Nat} (hgauge : Monitor.IsGauge name value)
  (topic : String)
include hgauge

/-- What is no publication leaves the gauges as they are. -/
theorem gauge?_of_tells {d d' : Dispatcher ω} (h : Tells (fun e => e.isPublication = false) d d') :
    d'.gauge? name topic = d.gauge? name topic := by
  obtain ⟨es, hj, hes⟩ := h
  have hhistory : d'.history = d.history ++ es.reverse := by
    rw [history, hj, List.reverse_append]
    rfl
  rw [gauge?, hhistory, Report.metrics_append]
  refine Monitor.value?_foreign topic _ hgauge fun x hx => ?_
  obtain ⟨e, he, hx⟩ := List.mem_flatMap.mp hx
  exact Event.isForeign_of_not_isPublication (hes e (List.mem_reverse.mp he)) hx

/-- A publication sets the gauges of the topics that are known and of those in
the monitor. -/
theorem gauge?_published (d : Dispatcher ω) :
    (d.tell [.monitor (.published (d.snapshot.published d.topics))]).gauge? name topic =
      if topic ∈ d.topics ∨ topic ∈ d.snapshot.topics then
        some (value (d.snapshot.totalsOf topic) : Int)
      else d.gauge? name topic := by
  have hset : (d.tell [.monitor (.published (d.snapshot.published d.topics))]).gauge? name topic =
      (((d.snapshot.published d.topics).flatMap fun e => Monitor.gauges e.1 e.2).foldl
        Report.Metrics.add (Report.metrics d.history)).value?
          (Report.own name [("topic", topic)]) := by
    rw [gauge?, history_tell, Report.metrics_append, List.flatMap_singleton]
    rfl
  rw [hset]
  split
  · next htopic =>
    exact Monitor.value?_published topic _ hgauge (Monitor.mem_published.mpr ⟨htopic, rfl⟩)
      fun u hu => (Monitor.mem_published.mp hu).2
  · next htopic =>
    exact Monitor.value?_unpublished topic _ fun t ht => htopic (Monitor.mem_published.mp ht).1

end Gauge

/-- How often the monitor was published. -/
def publications (d : Dispatcher ω) : Nat :=
  d.journal.countP Event.isPublication

theorem Tells.publications {d d' : Dispatcher ω}
    (h : Tells (fun e => e.isPublication = false) d d') : d'.publications = d.publications := by
  obtain ⟨es, hj, hes⟩ := h
  have hnone : es.countP Event.isPublication = 0 :=
    List.countP_eq_zero.mpr fun e he => Bool.eq_false_iff.mp (hes e he)
  rw [Dispatcher.publications, hj, List.countP_append, hnone, Nat.zero_add]
  rfl

/-- The gauges of a topic show how many partitions of it are in the monitor, and
what their processors have to do. -/
structure Shows (d : Dispatcher ω) (topic : String) : Prop where
  paused : d.gauge? "paused_partitions" topic = some ((d.monitor.entriesOf topic).length : Int)
  pending : d.gauge? "tasks_pending" topic = some
    (((d.monitor.entriesOf topic).map
      (Monitor.countOf d.workers.processor? Processor.pending)).sum : Int)
  total : d.gauge? "tasks_total" topic = some
    (((d.monitor.entriesOf topic).map
      (Monitor.countOf d.workers.processor? Processor.total)).sum : Int)

/-- If the monitor was published, the gauges are right of all topics of which a
poll has returned records or the monitor has an entry, and those of the others
are what they were. -/
def Refreshes (d d' : Dispatcher ω) : Prop :=
  d.publications < d'.publications → ∀ topic,
    (PolledTopic d'.journal topic ∨ d'.monitor.entriesOf topic ≠ [] → Shows d' topic) ∧
      (¬ PolledTopic d'.journal topic → d'.monitor.entriesOf topic = [] →
        ∀ name ∈ ["paused_partitions", "tasks_pending", "tasks_total"],
          d'.gauge? name topic = d.gauge? name topic)

theorem isGauge_paused : Monitor.IsGauge "paused_partitions" Monitor.Totals.paused :=
  fun _ _ => List.mem_cons_self

theorem isGauge_pending : Monitor.IsGauge "tasks_pending" Monitor.Totals.pending :=
  fun _ _ => by simp [Monitor.gauges]

theorem isGauge_total : Monitor.IsGauge "tasks_total" Monitor.Totals.total :=
  fun _ _ => by simp [Monitor.gauges]

section Report

variable {d d' : Dispatcher ω} {shown : Event} (hshown : shown.isUnseen = true)
  (h : d' = (d.report shown).commit false)
include h

theorem frame_reported :
    d'.monitor = d.monitor ∧ d'.workers = d.workers ∧ d'.topics = d.topics := by
  obtain rfl := h
  unfold report
  split <;> exact ⟨rfl, rfl, rfl⟩

include hshown

/-- If it is time, the monitor is published. -/
theorem gauge?_reported (hdue : d.reportIsDue = true) {name : String}
    {value : Monitor.Totals → Nat} (hgauge : Monitor.IsGauge name value) (topic : String) :
    d'.gauge? name topic =
      if topic ∈ d.topics ∨ topic ∈ d.snapshot.topics then
        some (value (d.snapshot.totalsOf topic) : Int)
      else d.gauge? name topic := by
  have hshows : Tells (fun e => e.isPublication = false) d
      ({ d with lastReport := d.now }.tell [shown]) :=
    .trans (.ofSilent rfl) (.tellOne _ (Event.isUnseen_iff.mp hshown).2)
  have hpublished := gauge?_published hgauge topic ({ d with lastReport := d.now }.tell [shown])
  rw [gauge?_of_tells hgauge topic hshows] at hpublished
  rw [h, gauge?_of_tells hgauge topic (Unseen.commit _ false).unpublished.tells, report,
    if_pos hdue]
  exact hpublished

end Report

/-- What is published at the end of a move is what the monitor has then. -/
theorem Turn.refreshes {d d' : Dispatcher ω} (h : Turn d d') (hd : KnownTopicsInv d) :
    Refreshes d d' := by
  have htopicsKnown := h.knownTopicsInv hd
  intro hpublishes topic
  obtain ⟨d₁, hunpublished, rfl | ⟨shown, hshown, h⟩⟩ := h
  · exact absurd hpublishes (by rw [hunpublished.tells.publications]; exact Nat.lt_irrefl _)
  have hdue : d₁.reportIsDue = true := by
    cases hnot : d₁.reportIsDue with
    | true => rfl
    | false =>
      rw [report, if_neg (Bool.eq_false_iff.mp hnot)] at h
      have hcommitted := hunpublished.tells.trans (Unseen.commit d₁ false).unpublished.tells
      rw [h, hcommitted.publications] at hpublishes
      exact absurd hpublishes (Nat.lt_irrefl _)
  obtain ⟨hmonitor, hworkers, htopics⟩ := frame_reported h
  have hknown : topic ∈ d₁.topics ↔ PolledTopic d'.journal topic := htopics ▸ htopicsKnown topic
  have hentries : topic ∈ d₁.snapshot.topics ↔ d'.monitor.entriesOf topic ≠ [] := by
    rw [hmonitor]
    exact d₁.monitor.mem_topics_snapshot _ _ topic
  refine ⟨fun htopic => ?_, fun hunknown hnone name hname => ?_⟩
  · have hset {name : String} {value : Monitor.Totals → Nat}
        (hgauge : Monitor.IsGauge name value) :
        d'.gauge? name topic = some (value (d₁.snapshot.totalsOf topic) : Int) := by
      rw [gauge?_reported hshown h hdue hgauge, if_pos (htopic.imp hknown.mpr hentries.mpr)]
    obtain ⟨hpaused, hpending, htotal⟩ :=
      d₁.monitor.totalsOf_snapshot d₁.workers.processor? d₁.now topic
    refine ⟨?_, ?_, ?_⟩
    · rw [hset isGauge_paused, hmonitor]
      exact congrArg (fun n : Nat => some (n : Int)) hpaused
    · rw [hset isGauge_pending, hmonitor, hworkers]
      exact congrArg (fun n : Nat => some (n : Int)) hpending
    · rw [hset isGauge_total, hmonitor, hworkers]
      exact congrArg (fun n : Nat => some (n : Int)) htotal
  · have hleft {value : Monitor.Totals → Nat} (hgauge : Monitor.IsGauge name value) :
        d'.gauge? name topic = d.gauge? name topic := by
      rw [gauge?_reported hshown h hdue hgauge, if_neg,
        gauge?_of_tells hgauge topic hunpublished.tells]
      exact fun htopic => htopic.elim (fun hmem => hunknown (hknown.mp hmem))
        fun hmem => hentries.mp hmem hnone
    simp only [List.mem_cons, List.not_mem_nil, or_false] at hname
    obtain rfl | rfl | rfl := hname
    · exact hleft isGauge_paused
    · exact hleft isGauge_pending
    · exact hleft isGauge_total

/-! ## Both ways of dispatching -/

/-- Whatever has happened before, a move after which the monitor was published
leaves the gauges right of every topic that was polled or is in the monitor. -/
theorem gauges_after_publication (settings : Settings) (size : Nat) (handler : Handler)
    (broker : Broker) (moves : List Move) (move : Move) :
    let ordered : OrderedDispatcher :=
      (initial settings (Workers.ofSize size handler) broker).run moves
    let unordered : UnorderedDispatcher :=
      (initial settings (Workers.ofSize size handler) broker).run moves
    Refreshes ordered (ordered.move move) ∧ Refreshes unordered (unordered.move move) :=
  ⟨(turn_move _ move).refreshes (knownTopicsInv_run settings _ broker moves),
    (turn_move _ move).refreshes (knownTopicsInv_run settings _ broker moves)⟩

/-- A dispatcher that publishes the monitor in every cycle, after some moves. -/
def publishingSample (moves : List Move) : OrderedDispatcher :=
  (initial { monitorInterval := 0 } (Workers.ofSize 1 { execute := fun _ => .done })
    { assigned := [⟨"t", 0⟩] }).run moves

/-- A partition that a global pause holds is counted. -/
theorem gauges_after_publication_sample :
    let d := publishingSample [.pauseAll]
    let d' := d.move (.cycle .nothing 0)
    d.publications < d'.publications ∧ (d'.monitor.entriesOf "t").length = 1 ∧
      d'.gauge? "paused_partitions" "t" = some 1 := by
  intro d d'
  have hpublishes : d.publications < d'.publications := by decide +kernel
  have hlength : (d'.monitor.entriesOf "t").length = 1 := by decide +kernel
  have hentries : d'.monitor.entriesOf "t" ≠ [] := List.ne_nil_of_length_eq_add_one hlength
  obtain ⟨hpaused, -, -⟩ :=
    ((gauges_after_publication { monitorInterval := 0 } 1 { execute := fun _ => .done }
      { assigned := [⟨"t", 0⟩] } [.pauseAll] (.cycle .nothing 0)).1 hpublishes "t").1
        (Or.inr hentries)
  exact ⟨hpublishes, hlength, hpaused.trans (congrArg (fun n : Nat => some (n : Int)) hlength)⟩

/-- Once the pause is lifted, the monitor is empty and is published, and the
partition is still counted. -/
theorem gauge_left_behind :
    let d := publishingSample [.pauseAll, .cycle .nothing 0, .resumeAll]
    let d' := d.move (.cycle .nothing 0)
    d.publications < d'.publications ∧ (d'.monitor.entriesOf "t").length = 0 ∧
      d'.gauge? "paused_partitions" "t" = some 1 := by
  decide +kernel

end Dispatcher
end RecordDispatch
