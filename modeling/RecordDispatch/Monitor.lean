import RecordDispatch.Duration
import RecordDispatch.Table
import RecordDispatch.Workers

/-!
# The monitor of paused partitions

The monitor has an entry for each partition that is paused at the broker:
when the pause began, and the processor for which the partition waits, if
there is one.

A `Snapshot` lists the entries in the order of their partitions with the
progress of their processors, and `totals` adds them up by topic.
-/

namespace RecordDispatch

namespace Monitor

/-- What the monitor knows about a paused partition. -/
structure Entry where
  since : Instant
  processor : Option ProcessorId := none

end Monitor

/-- The paused partitions. -/
structure Monitor where
  entries : Table Monitor.Entry := {}

namespace Monitor

/-- The entry of a partition. -/
def find? (m : Monitor) (p : Partition) : Option Entry :=
  m.entries.find? p

/-- Whether a partition has an entry. -/
def contains (m : Monitor) (p : Partition) : Bool :=
  m.entries.contains p

/-- Whether a partition has an entry that refers to a processor. -/
def hasProcessor (m : Monitor) (p : Partition) : Bool :=
  match m.find? p with
  | some e => e.processor.isSome
  | none => false

/-- The number of entries. -/
def size (m : Monitor) : Nat :=
  m.entries.size

/-- Whether there is no entry. -/
def isEmpty (m : Monitor) : Bool :=
  m.entries.isEmpty

/-- The partitions with an entry. -/
def partitions (m : Monitor) : List Partition :=
  m.entries.keys

/-- Note the beginning of a pause.  The first pause of a partition counts. -/
def recordPause (m : Monitor) (p : Partition) (since : Instant)
    (processor : Option ProcessorId) : Monitor :=
  if m.contains p then m else ⟨m.entries.insert p ⟨since, processor⟩⟩

/-- Let the entry of a partition refer to a processor. -/
def attach (m : Monitor) (p : Partition) (processor : ProcessorId) : Monitor :=
  ⟨m.entries.modify p fun e => { e with processor := some processor }⟩

/-- Let the entry of a partition refer to no processor. -/
def detach (m : Monitor) (p : Partition) : Monitor :=
  ⟨m.entries.modify p fun e => { e with processor := none }⟩

/-- Forget a partition. -/
def remove (m : Monitor) (p : Partition) : Monitor :=
  ⟨m.entries.erase p⟩

/-- Let the entries of partitions refer to no processor. -/
def detachAll (m : Monitor) (ps : List Partition) : Monitor :=
  ps.foldl detach m

/-- Forget partitions. -/
def removeAll (m : Monitor) (ps : List Partition) : Monitor :=
  ps.foldl remove m

/-- The partitions with an entry that refers to no processor. -/
def idle (m : Monitor) : List Partition :=
  m.partitions.filter fun p => !m.hasProcessor p

/-! ## What each operation does to the view

The view of a monitor is what it holds for each partition. -/

@[simp] theorem find?_empty (p : Partition) : ({} : Monitor).find? p = none := rfl

theorem contains_iff {m : Monitor} {p : Partition} :
    m.contains p = true ↔ ∃ e, m.find? p = some e :=
  Table.contains_iff

theorem mem_partitions {m : Monitor} {p : Partition} :
    p ∈ m.partitions ↔ m.contains p = true :=
  Table.mem_keys

theorem mem_idle {m : Monitor} {p : Partition} :
    p ∈ m.idle ↔ ∃ e, m.find? p = some e ∧ e.processor = none := by
  unfold idle hasProcessor
  rw [List.mem_filter, mem_partitions, contains_iff]
  cases m.find? p <;> simp

theorem find?_recordPause (m : Monitor) (p q : Partition) (since : Instant)
    (processor : Option ProcessorId) :
    (m.recordPause p since processor).find? q =
      if q = p then (m.find? p).or (some ⟨since, processor⟩) else m.find? q := by
  unfold recordPause contains Table.contains find?
  cases h : m.entries.find? p <;> by_cases hq : q = p <;> simp [hq, h]

@[simp] theorem find?_attach (m : Monitor) (p q : Partition) (id : ProcessorId) :
    (m.attach p id).find? q =
      if q = p then (m.find? q).map fun e => { e with processor := some id }
      else m.find? q :=
  Table.find?_modify m.entries p q _

@[simp] theorem find?_detach (m : Monitor) (p q : Partition) :
    (m.detach p).find? q =
      if q = p then (m.find? q).map fun e => { e with processor := none }
      else m.find? q :=
  Table.find?_modify m.entries p q _

@[simp] theorem find?_remove (m : Monitor) (p q : Partition) :
    (m.remove p).find? q = if q = p then none else m.find? q :=
  Table.find?_erase m.entries p q

@[simp] theorem find?_detachAll (m : Monitor) (ps : List Partition) (q : Partition) :
    (m.detachAll ps).find? q =
      if q ∈ ps then (m.find? q).map fun e => { e with processor := none }
      else m.find? q := by
  unfold detachAll
  induction ps generalizing m with
  | nil => simp
  | cons p ps ih =>
    rw [List.foldl_cons, ih]
    by_cases hp : q = p
    · subst hp
      simp [Function.comp_def]
    · simp [hp]

@[simp] theorem find?_removeAll (m : Monitor) (ps : List Partition) (q : Partition) :
    (m.removeAll ps).find? q = if q ∈ ps then none else m.find? q := by
  unfold removeAll
  induction ps generalizing m with
  | nil => simp
  | cons p ps ih =>
    rw [List.foldl_cons, ih]
    by_cases hp : q = p <;> by_cases hq : q ∈ ps <;> simp [hp, hq]

/-! ## Snapshots -/

/-- A paused partition at one moment. -/
structure Segment where
  partition : Partition
  pausedFor : Duration
  pending : Nat
  total : Nat
  nextOffset : Option Int

/-- The text of a paused partition. -/
def Segment.render (s : Segment) : String :=
  "(" ++ toString s.partition.number ++ "):[PausedSince: " ++
    toString (Duration.toMillis s.pausedFor) ++ "ms, Pending: " ++ toString s.pending ++
    "/" ++ toString s.total ++ ", LastOffset: " ++
    (match s.nextOffset with
      | some offset => toString offset
      | none => "not-started") ++ "]"

/-- The paused partitions at one moment, in order. -/
abbrev Snapshot := List Segment

/-- A paused partition with the progress of its processor. -/
def segment (progress : ProcessorId → Option Processor) (now : Instant)
    (p : Partition) (e : Entry) : Segment :=
  match e.processor.bind progress with
  | some q => ⟨p, Duration.between e.since now, q.pending, q.total, q.committable?⟩
  | none => ⟨p, Duration.between e.since now, 0, 0, none⟩

/-- All paused partitions with the progress of their processors. -/
def snapshot (m : Monitor) (progress : ProcessorId → Option Processor) (now : Instant) :
    Snapshot :=
  m.entries.sorted.map fun e => segment progress now e.1 e.2

/-- The text of a snapshot. -/
def Snapshot.render (s : Snapshot) : String :=
  ", ".intercalate (s.map Segment.render)

/-- What the paused partitions of a topic add up to. -/
structure Totals where
  paused : Nat := 0
  time : Duration := 0
  pending : Nat := 0
  total : Nat := 0
deriving DecidableEq, Inhabited

/-- The totals with one more partition. -/
def Totals.add (t : Totals) (s : Segment) : Totals :=
  { paused := t.paused + 1
    time := t.time + s.pausedFor
    pending := t.pending + s.pending
    total := t.total + s.total }

/-- The average time for which the partitions are paused. -/
def Totals.average (t : Totals) : Duration :=
  t.time / t.paused

/-- Whether a topic stands before another or is it. -/
def topicLe (a b : String) : Bool :=
  decide (a < b) || a == b

/-- The topics of a snapshot in order, each once. -/
def Snapshot.topics (s : Snapshot) : List String :=
  ((s.map (·.partition.topic)).eraseDups).mergeSort topicLe

/-- What the partitions of a topic add up to. -/
def Snapshot.totalsOf (s : Snapshot) (topic : String) : Totals :=
  (s.filter fun e => e.partition.topic == topic).foldl Totals.add {}

/-- The totals of each topic, in the order of the topics. -/
def Snapshot.totals (s : Snapshot) : List (String × Totals) :=
  s.topics.map fun topic => (topic, s.totalsOf topic)

/-- What is published: the totals of the topics of a snapshot, and zeros for
known topics that are not in it. -/
def Snapshot.published (s : Snapshot) (known : List String) : List (String × Totals) :=
  (known.filter fun topic => !s.topics.contains topic).map (fun topic => (topic, ({} : Totals))) ++
    s.totals

/-- What the monitor tells. -/
inductive Event
  | published (totals : List (String × Totals))

open Report in
/-- The gauges of a topic. -/
def gauges (topic : String) (t : Totals) : List Measurement :=
  let set (name : String) (value : Nat) : Measurement :=
    .gauge (own name [("topic", topic)]) value
  [set "paused_partitions" t.paused,
    set "processing_time_ms_total" (Duration.toMillis t.time),
    set "processing_time_ms_avg" (Duration.toMillis t.average),
    set "tasks_pending" t.pending,
    set "tasks_total" t.total]

open Report in
instance : Reported Event where
  line? _ := none
  measurements
    | .published totals => totals.flatMap fun e => gauges e.1 e.2

end Monitor
end RecordDispatch
