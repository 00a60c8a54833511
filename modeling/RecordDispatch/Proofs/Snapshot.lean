import RecordDispatch.Monitor
import RecordDispatch.Proofs.Sums

/-!
# What snapshots add up to

The totals of a topic are counted from its segments.  Here they are said of the
entries that the monitor has for the topic: how many these are, and what their
processors have pending and in all (`totalsOf_snapshot`).  What is published
are these totals, for the topics of the snapshot and for those that are known
(`mem_published`).
-/

namespace RecordDispatch.Monitor

/-- The entries of the partitions of a topic. -/
def entriesOf (m : Monitor) (topic : String) : List (Partition × Entry) :=
  m.entries.entries.filter fun e => e.1.topic == topic

/-- What a count says of the processor of an entry, and zero if it has none. -/
def countOf (progress : ProcessorId → Option Processor) (count : Processor → Nat)
    (e : Partition × Entry) : Nat :=
  ((e.2.processor.bind progress).map count).getD 0

/-! ## Totals -/

/-- The totals are those of some segments. -/
structure Totals.AddsUp (t : Totals) (l : List Segment) : Prop where
  paused : t.paused = l.length
  time : t.time = (l.map Segment.pausedFor).sum
  pending : t.pending = (l.map Segment.pending).sum
  total : t.total = (l.map Segment.total).sum

/-- A number of the totals that each segment raises is raised by all of them. -/
theorem foldl_add {f : Totals → Nat} {g : Segment → Nat} (h : ∀ t s, f (t.add s) = f t + g s)
    (l : List Segment) (t : Totals) : f (l.foldl Totals.add t) = f t + (l.map g).sum := by
  induction l generalizing t with
  | nil => rfl
  | cons s l ih => rw [List.foldl_cons, ih, h, List.map_cons, List.sum_cons, Nat.add_assoc]

theorem addsUp_foldl (l : List Segment) : (l.foldl Totals.add {}).AddsUp l where
  paused := by
    rw [← sum_map_one]
    exact (foldl_add (fun _ _ => rfl) l _).trans (Nat.zero_add _)
  time := (foldl_add (fun _ _ => rfl) l _).trans (Nat.zero_add _)
  pending := (foldl_add (fun _ _ => rfl) l _).trans (Nat.zero_add _)
  total := (foldl_add (fun _ _ => rfl) l _).trans (Nat.zero_add _)

section Segments

variable (progress : ProcessorId → Option Processor) (now : Instant) (e : Partition × Entry)

@[simp] theorem partition_segment : (segment progress now e.1 e.2).partition = e.1 := by
  unfold segment
  split <;> rfl

theorem pending_segment :
    (segment progress now e.1 e.2).pending = countOf progress Processor.pending e := by
  unfold segment countOf
  split <;> next heq => rw [heq]; rfl

theorem total_segment :
    (segment progress now e.1 e.2).total = countOf progress Processor.total e := by
  unfold segment countOf
  split <;> next heq => rw [heq]; rfl

end Segments

section Snapshot

variable (m : Monitor) (progress : ProcessorId → Option Processor) (now : Instant)
  (topic : String)

theorem mem_topics {s : Snapshot} :
    topic ∈ s.topics ↔ ∃ e ∈ s, e.partition.topic = topic := by
  unfold Snapshot.topics
  rw [List.mem_mergeSort, List.mem_eraseDups, List.mem_map]

/-- The topics of a snapshot are those of which the monitor has an entry. -/
theorem mem_topics_snapshot :
    topic ∈ (m.snapshot progress now).topics ↔ m.entriesOf topic ≠ [] := by
  rw [mem_topics]
  constructor
  · rintro ⟨s, hs, htopic⟩
    obtain ⟨e, he, rfl⟩ := List.mem_map.mp hs
    rw [partition_segment] at htopic
    have he := m.entries.sorted_perm.mem_iff.mp he
    exact List.ne_nil_of_mem (List.mem_filter.mpr ⟨he, beq_iff_eq.mpr htopic⟩)
  · intro hne
    obtain ⟨e, he⟩ := List.exists_mem_of_ne_nil _ hne
    obtain ⟨he, htopic⟩ := List.mem_filter.mp he
    refine ⟨_, List.mem_map.mpr ⟨e, m.entries.sorted_perm.mem_iff.mpr he, rfl⟩, ?_⟩
    rw [partition_segment]
    exact beq_iff_eq.mp htopic

/-- The totals of a topic are those of its entries, in whatever order. -/
theorem totalsOf_snapshot :
    let t := (m.snapshot progress now).totalsOf topic
    t.paused = (m.entriesOf topic).length ∧
      t.pending = ((m.entriesOf topic).map (countOf progress Processor.pending)).sum ∧
      t.total = ((m.entriesOf topic).map (countOf progress Processor.total)).sum := by
  have hfilter : (m.snapshot progress now).filter (fun s => s.partition.topic == topic) =
      (m.entries.sorted.filter fun e => e.1.topic == topic).map
        fun e => segment progress now e.1 e.2 := by
    simp only [snapshot, List.filter_map, Function.comp_def, partition_segment]
  have hperm : (m.entries.sorted.filter fun e => e.1.topic == topic).Perm (m.entriesOf topic) :=
    m.entries.sorted_perm.filter _
  have hsum := addsUp_foldl ((m.entries.sorted.filter fun e => e.1.topic == topic).map
    fun e => segment progress now e.1 e.2)
  rw [Snapshot.totalsOf, hfilter]
  refine ⟨?_, ?_, ?_⟩
  · rw [hsum.paused, List.length_map, hperm.length_eq]
  · rw [hsum.pending, List.map_map, Function.comp_def, funext (pending_segment progress now)]
    exact (hperm.map _).sum_eq
  · rw [hsum.total, List.map_map, Function.comp_def, funext (total_segment progress now)]
    exact (hperm.map _).sum_eq

end Snapshot

/-! ## Publications -/

/-- A topic that is not in a snapshot has no totals. -/
theorem totalsOf_of_not_mem {s : Snapshot} {topic : String} (h : topic ∉ s.topics) :
    s.totalsOf topic = {} := by
  have hnone : s.filter (fun e => e.partition.topic == topic) = [] := by
    refine List.filter_eq_nil_iff.mpr fun e he htopic => h ?_
    exact (mem_topics topic).mpr ⟨e, he, eq_of_beq htopic⟩
  rw [Snapshot.totalsOf, hnone]
  rfl

/-- Every topic that is published has its totals. -/
theorem mem_published {s : Snapshot} {known : List String} {topic : String} {t : Totals} :
    (topic, t) ∈ s.published known ↔
      (topic ∈ known ∨ topic ∈ s.topics) ∧ t = s.totalsOf topic := by
  simp only [Snapshot.published, Snapshot.totals, List.mem_append, List.mem_map,
    List.mem_filter, Prod.mk.injEq]
  constructor
  · rintro (⟨u, ⟨hknown, hnot⟩, rfl, rfl⟩ | ⟨u, hmem, rfl, rfl⟩)
    · refine ⟨Or.inl hknown, (totalsOf_of_not_mem fun hmem => ?_).symm⟩
      simp [hmem] at hnot
    · exact ⟨Or.inr hmem, rfl⟩
  · rintro ⟨htopic, rfl⟩
    by_cases hmem : topic ∈ s.topics
    · exact Or.inr ⟨topic, hmem, rfl, rfl⟩
    · refine Or.inl ⟨topic, ⟨htopic.resolve_right hmem, ?_⟩, rfl, (totalsOf_of_not_mem hmem).symm⟩
      simp [hmem]

end RecordDispatch.Monitor
