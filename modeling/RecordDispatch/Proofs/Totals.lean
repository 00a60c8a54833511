import Mathlib.Data.List.Induction
import RecordDispatch.Proofs.Snapshot
import RecordDispatch.Proofs.Sorted

/-!
# Totals by topic

The totals of a snapshot are said topic by topic: for each of its topics, what
the segments of this topic add up to.

* `pairwise_topics` and `mem_totals`: every topic of the snapshot has its totals
  once, in the order of the topics.
* `addsUp_sum`: the totals of all topics add up to the whole snapshot.
* `totals_eq_foldl`: one pass over the segments gathers them.  A step of the pass
  (`gather`) adds a segment to the totals of its topic, or puts a new topic where
  it belongs; `totals_concat` says that it makes the totals of the segments so
  far into those with one more.
-/

namespace RecordDispatch

variable {α : Type}

theorem nodup_eraseDups [BEq α] [LawfulBEq α] (l : List α) : l.eraseDups.Nodup := by
  match l with
  | [] => exact List.nodup_nil
  | a :: l =>
    rw [List.eraseDups_cons, List.nodup_cons]
    refine ⟨fun hmem => ?_, nodup_eraseDups _⟩
    rw [List.mem_eraseDups, List.mem_filter] at hmem
    simp at hmem
termination_by l.length
decreasing_by exact Nat.lt_succ_of_le (List.length_filter_le _ _)

namespace Monitor

/-! ## Topics -/

section Topics

variable (s : Snapshot) {topic : String}

theorem topicLe_iff {a b : String} : topicLe a b = true ↔ a ≤ b := by
  rw [topicLe, Bool.or_eq_true, decide_eq_true_eq, beq_iff_eq]
  constructor
  · rintro (hlt | rfl)
    · exact Std.le_of_lt hlt
    · exact Std.le_refl a
  · intro hle
    by_cases heq : a = b
    · exact Or.inr heq
    · exact Or.inl (Std.lt_of_le_of_ne hle heq)

/-- The topics stand in order, each once. -/
theorem pairwise_topics : s.topics.Pairwise (· < ·) := by
  have hle : s.topics.Pairwise fun a b => topicLe a b = true := by
    refine List.pairwise_mergeSort ?_ ?_ _
    · intro a b c hab hbc
      exact topicLe_iff.mpr (Std.le_trans (topicLe_iff.mp hab) (topicLe_iff.mp hbc))
    · intro a b
      rw [Bool.or_eq_true, topicLe_iff, topicLe_iff]
      exact String.le_total a b
  have hne : s.topics.Nodup := (List.mergeSort_perm _ _).nodup_iff.mpr (nodup_eraseDups _)
  exact (hle.and hne).imp fun h => Std.lt_of_le_of_ne (topicLe_iff.mp h.1) h.2

theorem nodup_topics : s.topics.Nodup :=
  (pairwise_topics s).imp Std.ne_of_lt

end Topics

/-! ## The totals of all topics -/

section Totals

variable {s : Snapshot} {topic : String} {t : Totals}

theorem mem_totals : (topic, t) ∈ s.totals ↔ topic ∈ s.topics ∧ t = s.totalsOf topic := by
  rw [Snapshot.totals, List.mem_map]
  constructor
  · rintro ⟨topic', hmem, heq⟩
    cases heq
    exact ⟨hmem, rfl⟩
  · rintro ⟨hmem, rfl⟩
    exact ⟨topic, hmem, rfl⟩

theorem topics_totals (s : Snapshot) : s.totals.map (·.1) = s.topics := by
  rw [Snapshot.totals, List.map_map]
  exact List.map_id _

/-- The totals of topics, added up. -/
def Totals.sum (l : List (String × Totals)) : Totals where
  paused := (l.map (·.2.paused)).sum
  time := (l.map (·.2.time)).sum
  pending := (l.map (·.2.pending)).sum
  total := (l.map (·.2.total)).sum

/-- A number that is added up by topics is added up over all segments. -/
theorem sum_map_totals {f : Totals → Nat} {g : Segment → Nat}
    (h : ∀ l : List Segment, f (l.foldl Totals.add {}) = (l.map g).sum) (s : Snapshot) :
    (s.totals.map fun e => f e.2).sum = (s.map g).sum := by
  have hgroup (topic : String) :
      f (s.totalsOf topic) = ((s.filter fun e => e.partition.topic == topic).map g).sum :=
    h _
  rw [Snapshot.totals, List.map_map, Function.comp_def, funext hgroup]
  exact sum_map_groups g (·.partition.topic) (nodup_topics s)
    fun e he => (mem_topics _).mpr ⟨e, he, rfl⟩

/-- The totals of all topics are those of the snapshot. -/
theorem addsUp_sum (s : Snapshot) : (Totals.sum s.totals).AddsUp s where
  paused := by
    rw [← sum_map_one]
    exact sum_map_totals (fun l => (addsUp_foldl l).paused.trans (sum_map_one l).symm) s
  time := sum_map_totals (fun l => (addsUp_foldl l).time) s
  pending := sum_map_totals (fun l => (addsUp_foldl l).pending) s
  total := sum_map_totals (fun l => (addsUp_foldl l).total) s

end Totals

/-! ## One pass -/

/-- Add a segment to the totals of its topic, among totals in the order of their
topics. -/
def gather : List (String × Totals) → Segment → List (String × Totals)
  | [], s => [(s.partition.topic, Totals.add {} s)]
  | (topic, t) :: rest, s =>
    if s.partition.topic < topic then
      (s.partition.topic, Totals.add {} s) :: (topic, t) :: rest
    else if s.partition.topic = topic then (topic, t.add s) :: rest
    else (topic, t) :: gather rest s

/-- Totals that differ for one topic only are the same for all others. -/
theorem map_totals_congr {f f' : String → Totals} {k : String} (h : ∀ k' ≠ k, f' k' = f k')
    {ks : List String} (hk : k ∉ ks) :
    ks.map (fun k' => (k', f' k')) = ks.map fun k' => (k', f k') :=
  List.map_congr_left fun k' hk' => congrArg (k', ·) (h k' fun heq => hk (heq ▸ hk'))

/-- Where the totals of topics in order are what `f` says, one more segment makes
them what `f'` says, of the same topics and its own. -/
theorem gather_map {f f' : String → Totals} {e : Segment}
    (hown : f' e.partition.topic = (f e.partition.topic).add e)
    (hothers : ∀ k ≠ e.partition.topic, f' k = f k) {ks : List String}
    (hks : ks.Pairwise (· < ·)) (hnew : e.partition.topic ∉ ks → f e.partition.topic = {}) :
    ∃ ks' : List String, ks'.Pairwise (· < ·) ∧ (∀ k, k ∈ ks' ↔ k = e.partition.topic ∨ k ∈ ks) ∧
      gather (ks.map fun k => (k, f k)) e = ks'.map fun k => (k, f' k) := by
  induction ks with
  | nil =>
    refine ⟨[e.partition.topic], List.pairwise_singleton _ _, fun k => by simp, ?_⟩
    rw [List.map_cons, hown, hnew List.not_mem_nil]
    rfl
  | cons k ks ih =>
    obtain ⟨hfirst, hrest⟩ := List.pairwise_cons.mp hks
    rw [List.map_cons, gather]
    split
    · next hlt =>
      -- The topic stands before all others and is new.
      have hbefore : ∀ k' ∈ k :: ks, e.partition.topic < k' :=
        List.forall_mem_cons.mpr ⟨hlt, fun k' hk' => String.lt_trans hlt (hfirst k' hk')⟩
      have hnot : e.partition.topic ∉ k :: ks := fun hmem => String.lt_irrefl _ (hbefore _ hmem)
      refine ⟨e.partition.topic :: k :: ks, List.pairwise_cons.mpr ⟨hbefore, hks⟩,
        fun _ => List.mem_cons, ?_⟩
      rw [List.map_cons, map_totals_congr hothers hnot, hown, hnew hnot]
      rfl
    · next hnlt =>
      split
      · next heq =>
        have hnot : e.partition.topic ∉ ks := fun hmem => String.lt_irrefl k (hfirst k (heq ▸ hmem))
        refine ⟨k :: ks, hks, fun k' => by simp [heq], ?_⟩
        rw [List.map_cons, map_totals_congr hothers hnot, ← heq, hown]
      · next hne =>
        -- The topic belongs among the rest.
        have hlt : k < e.partition.topic :=
          Std.lt_of_le_of_ne (String.not_lt.mp hnlt) (Ne.symm hne)
        obtain ⟨ks', hks', hmem, hgather⟩ :=
          ih hrest fun hnot => hnew (List.not_mem_cons_of_ne_of_not_mem hne hnot)
        refine ⟨k :: ks', List.pairwise_cons.mpr ⟨fun k' hk' => ?_, hks'⟩, fun k' => ?_, ?_⟩
        · rcases (hmem k').mp hk' with rfl | hk'
          · exact hlt
          · exact hfirst k' hk'
        · rw [List.mem_cons, hmem, List.mem_cons]
          exact or_left_comm
        · rw [List.map_cons, hgather, hothers k (Ne.symm hne)]

section Pass

variable (s : Snapshot) (e : Segment)

theorem mem_topics_concat {topic : String} :
    topic ∈ Snapshot.topics (s ++ [e]) ↔ topic = e.partition.topic ∨ topic ∈ s.topics := by
  simp only [mem_topics, List.mem_append, List.mem_singleton]
  constructor
  · rintro ⟨e', hmem | rfl, rfl⟩
    · exact Or.inr ⟨e', hmem, rfl⟩
    · exact Or.inl rfl
  · rintro (rfl | ⟨e', hmem, rfl⟩)
    · exact ⟨e, Or.inr rfl, rfl⟩
    · exact ⟨e', Or.inl hmem, rfl⟩

theorem totalsOf_concat (topic : String) :
    Snapshot.totalsOf (s ++ [e]) topic =
      if e.partition.topic = topic then (s.totalsOf topic).add e else s.totalsOf topic := by
  unfold Snapshot.totalsOf
  rw [List.filter_append, List.foldl_append, List.filter_singleton]
  split
  · next h => rw [beq_iff_eq.mpr h]; rfl
  · next h => rw [beq_eq_false_iff_ne.mpr h]; rfl

/-- One more segment is added to the totals of its topic. -/
theorem totals_concat : Snapshot.totals (s ++ [e]) = gather s.totals e := by
  have hown : Snapshot.totalsOf (s ++ [e]) e.partition.topic =
      (s.totalsOf e.partition.topic).add e := by
    rw [totalsOf_concat, if_pos rfl]
  have hothers : ∀ k ≠ e.partition.topic, Snapshot.totalsOf (s ++ [e]) k = s.totalsOf k := by
    intro k hk
    rw [totalsOf_concat, if_neg (Ne.symm hk)]
  obtain ⟨ks, hks, hmem, hgather⟩ :=
    gather_map hown hothers (pairwise_topics s) totalsOf_of_not_mem
  have htopics : Snapshot.topics (s ++ [e]) = ks := by
    refine (pairwise_topics _).eq_of_mem_iff hks fun k => ?_
    rw [mem_topics_concat, hmem]
  rw [Snapshot.totals, Snapshot.totals, htopics, hgather]

/-- One pass over the segments gathers the totals. -/
theorem totals_eq_foldl : s.totals = s.foldl gather [] := by
  induction s using List.reverseRecOn with
  | nil => simp [Snapshot.totals, Snapshot.topics]
  | append_singleton s e ih =>
    rw [totals_concat, ih, List.foldl_append]
    rfl

end Pass
end Monitor
end RecordDispatch
