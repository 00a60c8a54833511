import RecordDispatch.Proofs.Totals

/-!
# What the monitor holds and what its snapshots tell

The monitor is changed by four operations, in any order and of any partitions.
What they leave of a partition is said by their list alone:

* A partition is monitored if it was paused and not removed since (`Monitored`).
* Its entry begins with the pause that found it not monitored.  Later pauses
  change nothing, and the processor is the one of that pause or what was last
  attached or detached (`Holds`).

`find?_apply` is the effect of one operation, and `find?_apply_eq_some` its
inversion.  The histories follow by `monitored_concat` and `holds_concat`, which
say the same of a list with one more operation, and `find?_run_eq_some` is the
induction.  Operations of other partitions do not matter (`find?_run_filter`).

A snapshot tells of all entries and of nothing else, and so do its totals
(`snapshot_conserves`).
-/

namespace RecordDispatch.Monitor

/-! ## Operations -/

/-- The operations on the monitor. -/
inductive Operation
  | recordPause (p : Partition) (since : Instant) (processor : Option ProcessorId)
  | attach (p : Partition) (processor : ProcessorId)
  | detach (p : Partition)
  | remove (p : Partition)

namespace Operation

/-- The partition of an operation. -/
def partition : Operation → Partition
  | recordPause p _ _ => p
  | attach p _ => p
  | detach p => p
  | remove p => p

/-- Carry out an operation. -/
def apply (m : Monitor) : Operation → Monitor
  | recordPause p since processor => m.recordPause p since processor
  | attach p processor => m.attach p processor
  | detach p => m.detach p
  | remove p => m.remove p

/-- What an operation makes of what the monitor has for its partition. -/
def onEntry (e? : Option Entry) : Operation → Option Entry
  | recordPause _ since processor => e?.or (some ⟨since, processor⟩)
  | attach _ processor => e?.map fun e => { e with processor := some processor }
  | detach _ => e?.map fun e => { e with processor := none }
  | remove _ => none

/-- The processor of the entry of a partition after an operation, if the entry is
there before and after it. -/
def referred (p : Partition) (current : Option ProcessorId) : Operation → Option ProcessorId
  | attach q processor => if q = p then some processor else current
  | detach q => if q = p then none else current
  | _ => current

theorem onEntry_none {op : Operation} {e : Entry} :
    op.onEntry none = some e ↔ op = .recordPause op.partition e.since e.processor := by
  obtain ⟨since, processor⟩ := e
  cases op <;> simp [onEntry, partition]

theorem onEntry_some {op : Operation} {e : Entry} (h : op ≠ .remove op.partition) :
    op.onEntry (some e) = some { e with processor := op.referred op.partition e.processor } := by
  cases op with
  | remove p => exact absurd rfl h
  | _ => simp [onEntry, referred, partition]

theorem referred_of_ne {op : Operation} {p : Partition} (h : op.partition ≠ p)
    (current : Option ProcessorId) : op.referred p current = current := by
  cases op with
  | recordPause _ _ _ | remove _ => rfl
  | attach _ _ | detach _ => exact if_neg h

end Operation

/-- Carry out some operations, one after another. -/
def run (m : Monitor) (ops : List Operation) : Monitor :=
  ops.foldl Operation.apply m

section Step

variable (m : Monitor) (op : Operation) (p : Partition)

/-- An operation changes what the monitor has for its own partition. -/
theorem find?_apply :
    (op.apply m).find? p = if op.partition = p then op.onEntry (m.find? p) else m.find? p := by
  cases op with
  | recordPause q since processor =>
    rw [Operation.apply, find?_recordPause]
    by_cases h : q = p
    · subst h
      rw [if_pos rfl]
      exact (if_pos rfl).symm
    · rw [if_neg (Ne.symm h)]
      exact (if_neg h).symm
  | attach q _ | detach q | remove q =>
    simp [Operation.apply, Operation.partition, Operation.onEntry, eq_comm]

/-- An entry after an operation is new, by a pause, or it was there and was not
removed. -/
theorem find?_apply_eq_some {e : Entry} :
    (op.apply m).find? p = some e ↔
      (m.find? p = none ∧ op = .recordPause p e.since e.processor) ∨
      ∃ e', m.find? p = some e' ∧ op ≠ .remove p ∧
        { e' with processor := op.referred p e'.processor } = e := by
  rw [find?_apply]
  by_cases hp : op.partition = p
  · subst hp
    rw [if_pos rfl]
    cases h : m.find? op.partition with
    | none => simp [Operation.onEntry_none]
    | some e' =>
      by_cases hremove : op = .remove op.partition
      · have hgone : op.onEntry (some e') = none := by
          rw [hremove]
          rfl
        simp [hgone, not_not_intro hremove]
      · rw [Operation.onEntry_some hremove]
        simp [hremove]
  · have hpause : op ≠ .recordPause p e.since e.processor := fun h => hp (h ▸ rfl)
    have hremove : op ≠ .remove p := fun h => hp (h ▸ rfl)
    rw [if_neg hp]
    simp [hpause, hremove, Operation.referred_of_ne hp]

end Step

theorem run_concat (m : Monitor) (ops : List Operation) (op : Operation) :
    m.run (ops ++ [op]) = op.apply (m.run ops) :=
  List.foldl_append

/-- What the monitor has for a partition comes from the operations of this
partition. -/
theorem find?_run_filter (m : Monitor) (ops : List Operation) (p : Partition) :
    (m.run ops).find? p =
      (ops.filter fun op => op.partition == p).foldl Operation.onEntry (m.find? p) := by
  induction ops generalizing m with
  | nil => rfl
  | cons op ops ih =>
    rw [run, List.foldl_cons, ← run, ih, find?_apply, List.filter_cons]
    by_cases hp : op.partition = p
    · rw [if_pos hp, if_pos (beq_iff_eq.mpr hp), List.foldl_cons]
    · rw [if_neg hp, if_neg (mt beq_iff_eq.mp hp)]

/-! ## Histories -/

/-- A partition was paused by one of some operations, and not removed since. -/
def Monitored (ops : List Operation) (p : Partition) : Prop :=
  ∃ before since processor after,
    ops = before ++ .recordPause p since processor :: after ∧ .remove p ∉ after

/-- What some operations leave of a partition: the entry begins with a pause that
found the partition not monitored, and the partition was not removed since.  Its
processor is the one of this pause, unless the operations since say another. -/
def Holds (ops : List Operation) (p : Partition) (e : Entry) : Prop :=
  ∃ before processor after,
    ops = before ++ .recordPause p e.since processor :: after ∧ ¬ Monitored before p ∧
      .remove p ∉ after ∧ after.foldl (Operation.referred p) processor = e.processor

section Histories

variable {ops : List Operation} {op : Operation} {p : Partition}

/-- Of a list with one more element, an element is the last one or an earlier
one. -/
theorem concat_eq_append_cons {α : Type} {l before after : List α} {a b : α} :
    l ++ [a] = before ++ b :: after ↔
      (l = before ∧ a = b ∧ after = []) ∨
        ∃ after', after = after' ++ [a] ∧ l = before ++ b :: after' := by
  rcases List.eq_nil_or_concat after with rfl | ⟨after', c, rfl⟩
  · simp
  · have hassoc : before ++ b :: (after' ++ [c]) = (before ++ b :: after') ++ [c] := by simp
    rw [List.concat_eq_append, hassoc]
    constructor
    · intro h
      obtain ⟨rfl, hlast⟩ := List.append_inj' h rfl
      exact Or.inr ⟨after', by rw [List.singleton_inj.mp hlast], rfl⟩
    · rintro (⟨-, -, hnil⟩ | ⟨after'', hafter, rfl⟩)
      · simp at hnil
      · obtain ⟨rfl, hlast⟩ := List.append_inj' hafter rfl
        rw [hlast]

theorem monitored_concat :
    Monitored (ops ++ [op]) p ↔
      (∃ since processor, op = .recordPause p since processor) ∨
        Monitored ops p ∧ op ≠ .remove p := by
  unfold Monitored
  simp only [concat_eq_append_cons]
  constructor
  · rintro ⟨before, since, processor, after, ⟨-, rfl, -⟩ | ⟨after', rfl, rfl⟩, hremove⟩
    · exact Or.inl ⟨since, processor, rfl⟩
    · rw [List.mem_append, List.mem_singleton, not_or] at hremove
      exact Or.inr ⟨⟨before, since, processor, after', rfl, hremove.1⟩, Ne.symm hremove.2⟩
  · rintro (⟨since, processor, rfl⟩ | ⟨⟨before, since, processor, after, rfl, hremove⟩, hop⟩)
    · exact ⟨ops, since, processor, [], Or.inl ⟨rfl, rfl, rfl⟩, List.not_mem_nil⟩
    · refine ⟨before, since, processor, after ++ [op], Or.inr ⟨after, rfl, rfl⟩, ?_⟩
      rw [List.mem_append, List.mem_singleton, not_or]
      exact ⟨hremove, Ne.symm hop⟩

theorem holds_concat {e : Entry} :
    Holds (ops ++ [op]) p e ↔
      (¬ Monitored ops p ∧ op = .recordPause p e.since e.processor) ∨
        ∃ e', Holds ops p e' ∧ op ≠ .remove p ∧
          { e' with processor := op.referred p e'.processor } = e := by
  unfold Holds
  simp only [concat_eq_append_cons]
  constructor
  · rintro ⟨before, processor, after, ⟨rfl, rfl, rfl⟩ | ⟨after', rfl, rfl⟩, hnew, hremove, hlast⟩
    · exact Or.inl ⟨hnew, congrArg _ hlast⟩
    · rw [List.mem_append, List.mem_singleton, not_or] at hremove
      rw [List.foldl_append] at hlast
      exact Or.inr ⟨⟨e.since, after'.foldl (Operation.referred p) processor⟩,
        ⟨before, processor, after', rfl, hnew, hremove.1, rfl⟩, Ne.symm hremove.2,
        congrArg (Entry.mk e.since) hlast⟩
  · rintro (⟨hnew, rfl⟩ |
      ⟨e', ⟨before, processor, after, rfl, hnew, hremove, hlast⟩, hop, rfl⟩)
    · exact ⟨ops, e.processor, [], Or.inl ⟨rfl, rfl, rfl⟩, hnew, List.not_mem_nil, rfl⟩
    · refine ⟨before, processor, after ++ [op], Or.inr ⟨after, rfl, rfl⟩, hnew, ?_, ?_⟩
      · rw [List.mem_append, List.mem_singleton, not_or]
        exact ⟨hremove, Ne.symm hop⟩
      · rw [List.foldl_append, hlast]
        rfl

/-- The monitor has an entry of a partition exactly if this is monitored. -/
theorem contains_run (ops : List Operation) (p : Partition) :
    (({} : Monitor).run ops).contains p = true ↔ Monitored ops p := by
  induction ops using List.reverseRecOn with
  | nil =>
    refine iff_of_false Bool.false_ne_true ?_
    rintro ⟨before, since, processor, after, hnil, -⟩
    simp at hnil
  | append_singleton ops op ih =>
    rw [monitored_concat, ← ih, run_concat, contains_iff, contains_iff]
    simp only [find?_apply_eq_some]
    constructor
    · rintro ⟨e, ⟨-, rfl⟩ | ⟨e', he', hop, -⟩⟩
      · exact Or.inl ⟨_, _, rfl⟩
      · exact Or.inr ⟨⟨e', he'⟩, hop⟩
    · rintro (⟨since, processor, rfl⟩ | ⟨⟨e', he'⟩, hop⟩)
      · cases h : (({} : Monitor).run ops).find? p with
        | none => exact ⟨⟨since, processor⟩, Or.inl ⟨rfl, rfl⟩⟩
        | some e' => exact ⟨_, Or.inr ⟨e', rfl, Operation.noConfusion, rfl⟩⟩
      · exact ⟨_, Or.inr ⟨e', he', hop, rfl⟩⟩

theorem find?_run_eq_none (ops : List Operation) (p : Partition) :
    (({} : Monitor).run ops).find? p = none ↔ ¬ Monitored ops p := by
  rw [← contains_run, contains_iff, Option.eq_none_iff_forall_ne_some, not_exists]

/-- The monitor has what the operations leave. -/
theorem find?_run_eq_some {ops : List Operation} {p : Partition} {e : Entry} :
    (({} : Monitor).run ops).find? p = some e ↔ Holds ops p e := by
  induction ops using List.reverseRecOn generalizing e with
  | nil =>
    refine iff_of_false (Option.some_ne_none e).symm ?_
    rintro ⟨before, processor, after, hnil, -⟩
    simp at hnil
  | append_singleton ops op ih =>
    rw [run_concat, find?_apply_eq_some, holds_concat, find?_run_eq_none]
    simp only [ih]

end Histories

/-! ## Snapshots -/

section Snapshot

variable (m : Monitor) (progress : ProcessorId → Option Processor) (now : Instant)

theorem mem_snapshot {s : Segment} :
    s ∈ m.snapshot progress now ↔ ∃ p e, m.find? p = some e ∧ segment progress now p e = s := by
  rw [snapshot, List.mem_map, Prod.exists]
  exact exists_congr fun p => exists_congr fun e => and_congr_left' Table.mem_sorted

theorem mem_snapshot_run {ops : List Operation} {s : Segment} :
    s ∈ (({} : Monitor).run ops).snapshot progress now ↔
      ∃ p e, Holds ops p e ∧ segment progress now p e = s := by
  rw [mem_snapshot]
  exact exists_congr fun p => exists_congr fun e => and_congr_left' find?_run_eq_some

/-- The partitions of a snapshot are those of the sorted entries. -/
theorem partitions_snapshot :
    (m.snapshot progress now).map (·.partition) = m.entries.sorted.map (·.1) := by
  rw [snapshot, List.map_map]
  exact List.map_congr_left fun e _ => partition_segment progress now e

theorem mem_partitions_snapshot {p : Partition} :
    p ∈ (m.snapshot progress now).map (·.partition) ↔ m.contains p = true := by
  rw [partitions_snapshot, (m.entries.sorted_perm.map _).mem_iff]
  exact Table.mem_keys

theorem nodup_partitions_snapshot : ((m.snapshot progress now).map (·.partition)).Nodup := by
  rw [partitions_snapshot, (m.entries.sorted_perm.map _).nodup_iff]
  exact m.entries.distinct

theorem pairwise_snapshot :
    (m.snapshot progress now).Pairwise fun a b => a.partition.Precedes b.partition := by
  rw [← List.pairwise_map (f := Segment.partition), partitions_snapshot, List.pairwise_map]
  exact m.entries.pairwise_sorted

/-- No more is pending than there is. -/
theorem pending_le_total_segment (p : Partition) (e : Entry) :
    (segment progress now p e).pending ≤ (segment progress now p e).total := by
  unfold segment
  split
  · exact Nat.sub_le _ _
  · exact Nat.le_refl 0

/-- A snapshot tells what the monitor has, in whatever order this was put in. -/
theorem snapshot_congr {m m' : Monitor} (h : ∀ p, m.find? p = m'.find? p) :
    m.snapshot progress now = m'.snapshot progress now := by
  rw [snapshot, snapshot, Table.sorted_congr h]

end Snapshot

/-- A snapshot tells what some operations have left in the monitor, with the
progress that the processors have when they are read. -/
structure Conserves (ops : List Operation) (progress : ProcessorId → Option Processor)
    (now : Instant) (s : Snapshot) : Prop where
  /-- Listed are the monitored partitions. -/
  monitored : ∀ p, p ∈ s.map (·.partition) ↔ Monitored ops p
  /-- Each of them is listed once. -/
  once : (s.map (·.partition)).Nodup
  /-- They stand in the order of topics, then of numbers. -/
  inOrder : s.Pairwise fun a b => a.partition.Precedes b.partition
  /-- Of each of them the snapshot tells what is left, and it tells nothing else. -/
  told : ∀ a, a ∈ s ↔ ∃ p e, Holds ops p e ∧ segment progress now p e = a
  bounded : ∀ a ∈ s, a.pending ≤ a.total
  /-- The topics of the totals are those of the snapshot. -/
  topics : ∀ topic, topic ∈ s.totals.map (·.1) ↔ ∃ a ∈ s, a.partition.topic = topic
  topicsInOrder : (s.totals.map (·.1)).Pairwise (· < ·)
  /-- The totals of a topic are those of its partitions. -/
  byTopic : ∀ topic t, (topic, t) ∈ s.totals →
    t.AddsUp (s.filter fun a => a.partition.topic == topic)
  /-- The totals of all topics are those of all partitions. -/
  overall : (Totals.sum s.totals).AddsUp s
  /-- The totals are gathered in one pass. -/
  gathered : s.totals = s.foldl gather []
  /-- The order of operations matters for each partition by itself only. -/
  orderless : ∀ ops' : List Operation,
    (∀ p, (ops'.filter fun op => op.partition == p) = ops.filter fun op => op.partition == p) →
    (({} : Monitor).run ops').snapshot progress now = s

/-- Whatever operations the monitor has seen, and however far the processors have
come: its snapshot has each monitored partition once, in order, with what the
operations have left of it, and the totals by topic add up to the same.  Nothing
of this depends on the order in which different partitions were paused. -/
theorem snapshot_conserves (ops : List Operation) (progress : ProcessorId → Option Processor)
    (now : Instant) :
    Conserves ops progress now ((({} : Monitor).run ops).snapshot progress now) where
  monitored p := by rw [mem_partitions_snapshot, contains_run]
  once := nodup_partitions_snapshot _ progress now
  inOrder := pairwise_snapshot _ progress now
  told a := mem_snapshot_run progress now
  bounded a ha := by
    obtain ⟨p, e, -, rfl⟩ := (mem_snapshot_run progress now).mp ha
    exact pending_le_total_segment progress now p e
  topics topic := by rw [topics_totals, mem_topics]
  topicsInOrder := by
    rw [topics_totals]
    exact pairwise_topics _
  byTopic topic t ht := by
    rw [(mem_totals.mp ht).2]
    exact addsUp_foldl _
  overall := addsUp_sum _
  gathered := totals_eq_foldl _
  orderless ops' hsame := by
    refine snapshot_congr progress now fun p => ?_
    rw [find?_run_filter, find?_run_filter, hsame]

/-- Two partitions of one topic are paused, and one of another topic, which is
removed again.  The second pause of the first one does not count. -/
example :
    let working : Processor :=
      { batch := ⟨⟨"b", 1⟩, [{ offset := 4 }, { offset := 5 }]⟩, processed := 1 }
    let m := ({} : Monitor).run
      [.recordPause ⟨"b", 1⟩ 10 none, .recordPause ⟨"a", 0⟩ 20 none, .attach ⟨"b", 1⟩ 0,
        .recordPause ⟨"b", 0⟩ 30 none, .recordPause ⟨"b", 1⟩ 40 none, .remove ⟨"a", 0⟩]
    (m.snapshot (fun _ => some working) 50).totals =
      [("b", { paused := 2, time := 60, pending := 1, total := 2 })] := by
  cbv

end RecordDispatch.Monitor
