import Mathlib.Data.List.Induction
import RecordDispatch.Proofs.Journal

/-!
# Grouping loses and reorders nothing

`Batch.group` searches the batches so far for each record that arrives.  Here
the outcome is said without a search: the partitions in the order of their first
records, each with its records in the order of arrival (`group_eq`).

Adding a record is joining a batch of one record, so that grouping is a fold of
`joinTo`, which extends the batch of a partition or puts a new one last.

* `Distinct` is the invariant that the search relies on: a partition has one
  batch.  `Distinct.joinTo` says that joining keeps it.
* `merge_joinTo` is the step for lists that follow one another: joining to what
  is merged later is joining to the result.  `group_append` is the induction.
* `group_paired` groups the records of batches, which gives these batches again.
-/

namespace RecordDispatch.Batch

open Dispatch

/-! ## What batches are compared with -/

/-- The records of a partition among polled ones, in the order of arrival. -/
def arrivals (polled : List (Partition × Record)) (p : Partition) : List Record :=
  (polled.filter fun e => e.1 == p).map (·.2)

/-- The records of batches, each with its partition. -/
def paired (bs : List Batch) : List (Partition × Record) :=
  bs.flatMap fun b => b.records.map fun r => (b.partition, r)

/-- Extend the batch of a partition by a later one, or put this after all
others. -/
def joinTo (later : Batch) : List Batch → List Batch
  | [] => [later]
  | b :: bs =>
    if b.partition = later.partition then b.append later :: bs else b :: joinTo later bs

/-- Join later batches to batches, one after another. -/
def merge (bs later : List Batch) : List Batch :=
  later.foldl (fun bs b => joinTo b bs) bs

/-- No two batches are of one partition. -/
def Distinct (bs : List Batch) : Prop :=
  (bs.map (·.partition)).Nodup

theorem distinct_cons {b : Batch} {bs : List Batch} :
    Distinct (b :: bs) ↔ b.partition ∉ bs.map (·.partition) ∧ Distinct bs :=
  List.nodup_cons

/-! ## Joining a batch -/

section Join

variable {b c : Batch} {bs : List Batch}

/-- A record is added as a batch of its own is joined. -/
theorem addTo_eq_joinTo (p : Partition) (r : Record) (bs : List Batch) :
    addTo p r bs = joinTo ⟨p, [r]⟩ bs := by
  induction bs with
  | nil => rfl
  | cons b bs ih => rw [addTo, joinTo, ih, append]

/-- A batch of a new partition is put last. -/
theorem joinTo_of_notMem (h : b.partition ∉ bs.map (·.partition)) : joinTo b bs = bs ++ [b] := by
  induction bs with
  | nil => rfl
  | cons c bs ih =>
    rw [List.map_cons, List.mem_cons, not_or] at h
    rw [joinTo, if_neg (Ne.symm h.1), ih h.2, List.cons_append]

/-- Joining changes no partition, but for a new one that is put last. -/
theorem partitions_joinTo (b : Batch) (bs : List Batch) :
    (joinTo b bs).map (·.partition) =
      bs.map (·.partition) ++
        if b.partition ∈ bs.map (·.partition) then [] else [b.partition] := by
  induction bs with
  | nil => simp [joinTo]
  | cons c bs ih =>
    by_cases hc : c.partition = b.partition
    · simp [joinTo, hc]
    · simp [joinTo, hc, Ne.symm hc, ih]

theorem mem_partitions_joinTo {p : Partition} :
    p ∈ (joinTo b bs).map (·.partition) ↔ p = b.partition ∨ p ∈ bs.map (·.partition) := by
  rw [partitions_joinTo, List.mem_append]
  split
  · next hb =>
    simp only [List.not_mem_nil, or_false]
    exact ⟨Or.inr, fun h => h.elim (fun heq => heq ▸ hb) id⟩
  · rw [List.mem_singleton, or_comm]

theorem Distinct.joinTo (h : Distinct bs) (b : Batch) : Distinct (joinTo b bs) := by
  unfold Distinct
  rw [partitions_joinTo]
  split
  · rwa [List.append_nil]
  · next hb =>
    refine List.nodup_append.mpr ⟨h, List.pairwise_singleton _ _, fun p hp q hq heq => hb ?_⟩
    rwa [← List.mem_singleton.mp hq, ← heq]

/-- Two batches of one partition may be put together before they are joined. -/
theorem joinTo_append (h : c.partition = b.partition) (bs : List Batch) :
    joinTo (b.append c) bs = joinTo c (joinTo b bs) := by
  induction bs with
  | nil => simp [joinTo, h]
  | cons a bs ih =>
    by_cases ha : a.partition = b.partition
    · simp [joinTo, ha, h, append]
    · simp [joinTo, ha, h, ih]

/-- Batches of different partitions may be joined in any order once one of the
partitions is there. -/
theorem joinTo_comm (hne : c.partition ≠ b.partition)
    (hc : c.partition ∈ bs.map (·.partition)) :
    joinTo c (joinTo b bs) = joinTo b (joinTo c bs) := by
  induction bs with
  | nil => exact absurd hc List.not_mem_nil
  | cons a bs ih =>
    by_cases hac : a.partition = c.partition
    · simp [joinTo, hac, hne]
    · have hmem : c.partition ∈ bs.map (·.partition) :=
        (List.mem_cons.mp hc).resolve_left (Ne.symm hac)
      by_cases hab : a.partition = b.partition
      · simp [joinTo, hab, Ne.symm hne]
      · simp [joinTo, hac, hab, ih hmem]

/-- Joining adds the records of the batch, and no batch without records. -/
theorem perm_paired_joinTo (b : Batch) (bs : List Batch) :
    (paired (joinTo b bs)).Perm (paired bs ++ paired [b]) := by
  induction bs with
  | nil => exact .refl _
  | cons c bs ih =>
    unfold joinTo
    split
    · next hc =>
      have hswap : (paired [b] ++ paired bs).Perm (paired bs ++ paired [b]) :=
        List.perm_append_comm
      simpa [paired, hc] using hswap.append_left (paired [c])
    · simpa [paired] using ih.append_left (paired [c])

/-- Joining adds the records of the batch to those of its partition. -/
theorem recordsOf_joinTo (h : Distinct bs) (b : Batch) (p : Partition) :
    recordsOf p (joinTo b bs) = recordsOf p bs ++ if p = b.partition then b.records else [] := by
  induction bs with
  | nil => rw [joinTo, recordsOf_cons]; simp [recordsOf]
  | cons c bs ih =>
    obtain ⟨hc, hbs⟩ := distinct_cons.mp h
    unfold joinTo
    split
    · next heq =>
      -- No other batch is of the partition, so that the records stay together.
      rw [recordsOf_cons, recordsOf_cons, partition_append, records_append, ← heq]
      by_cases hp : p = c.partition
      · rw [if_pos hp, if_pos hp, if_pos hp, hp, recordsOf_eq_nil hc, List.append_nil,
          List.append_nil]
      · rw [if_neg hp, if_neg hp, if_neg hp, List.append_nil]
    · rw [recordsOf_cons, ih hbs, recordsOf_cons, List.append_assoc]

theorem records_ne_nil_joinTo (hb : b.records ≠ []) (h : ∀ c ∈ bs, c.records ≠ []) :
    ∀ c ∈ joinTo b bs, c.records ≠ [] := by
  induction bs with
  | nil => exact List.forall_mem_singleton.mpr hb
  | cons a bs ih =>
    obtain ⟨ha, hrest⟩ := List.forall_mem_cons.mp h
    unfold joinTo
    split
    · refine List.forall_mem_cons.mpr ⟨fun hnil => ha ?_, hrest⟩
      exact (List.append_eq_nil_iff.mp hnil).1
    · exact List.forall_mem_cons.mpr ⟨ha, ih hrest⟩

end Join

/-! ## Merging batches -/

section Merge

variable {bs cs : List Batch}

theorem merge_cons (bs : List Batch) (c : Batch) (cs : List Batch) :
    merge bs (c :: cs) = merge (joinTo c bs) cs := rfl

/-- Batches of new partitions are put after all others. -/
theorem merge_eq_append (h : Distinct (bs ++ cs)) : merge bs cs = bs ++ cs := by
  induction cs generalizing bs with
  | nil => exact (List.append_nil bs).symm
  | cons c cs ih =>
    have hnew : c.partition ∉ bs.map (·.partition) := by
      unfold Distinct at h
      rw [List.map_append, List.map_cons] at h
      intro hc
      exact (List.nodup_append.mp h).2.2 _ hc _ List.mem_cons_self rfl
    have hsplit : bs ++ c :: cs = bs ++ [c] ++ cs := by simp
    rw [merge_cons, joinTo_of_notMem hnew, hsplit, ih (hsplit ▸ h)]

/-- A batch may be joined before those of other partitions are merged if its own
partition is there. -/
theorem merge_joinTo_left {b : Batch} (hb : b.partition ∈ bs.map (·.partition))
    (hcs : b.partition ∉ cs.map (·.partition)) :
    merge (joinTo b bs) cs = joinTo b (merge bs cs) := by
  induction cs generalizing bs with
  | nil => rfl
  | cons c cs ih =>
    rw [List.map_cons, List.mem_cons, not_or] at hcs
    rw [merge_cons, merge_cons, ← joinTo_comm hcs.1 hb]
    exact ih (mem_partitions_joinTo.mpr (Or.inr hb)) hcs.2

/-- Joining a batch to what is merged later is joining it to the result. -/
theorem merge_joinTo (h : Distinct cs) (b : Batch) (bs : List Batch) :
    merge bs (joinTo b cs) = joinTo b (merge bs cs) := by
  induction cs generalizing bs with
  | nil => rfl
  | cons c cs ih =>
    obtain ⟨hc, hcs⟩ := distinct_cons.mp h
    rw [merge_cons]
    by_cases heq : c.partition = b.partition
    · have hb : b.partition ∉ cs.map (·.partition) := fun hb => hc (heq.symm ▸ hb)
      rw [joinTo, if_pos heq, merge_cons, joinTo_append heq.symm]
      exact merge_joinTo_left (mem_partitions_joinTo.mpr (Or.inl heq.symm)) hb
    · rw [joinTo, if_neg heq, merge_cons, ih hcs]

end Merge

/-! ## Grouping -/

section Group

variable (polled : List (Partition × Record))

/-- The record that arrives last is joined last. -/
theorem group_concat (e : Partition × Record) :
    group (polled ++ [e]) = joinTo ⟨e.1, [e.2]⟩ (group polled) := by
  rw [group, List.foldl_append, List.foldl_cons, List.foldl_nil, addTo_eq_joinTo]
  rfl

theorem distinct_group : Distinct (group polled) := by
  induction polled using List.reverseRecOn with
  | nil => exact List.nodup_nil
  | append_singleton polled e ih =>
    rw [group_concat]
    exact ih.joinTo _

theorem records_ne_nil_group : ∀ b ∈ group polled, b.records ≠ [] := by
  induction polled using List.reverseRecOn with
  | nil => exact fun _ hb => absurd hb List.not_mem_nil
  | append_singleton polled e ih =>
    rw [group_concat]
    exact records_ne_nil_joinTo (List.cons_ne_nil _ _) ih

theorem perm_paired_group : (paired (group polled)).Perm polled := by
  induction polled using List.reverseRecOn with
  | nil => exact .refl _
  | append_singleton polled e ih =>
    rw [group_concat]
    exact (perm_paired_joinTo _ _).trans (ih.append_right _)

/-- What arrives later is grouped by itself and then merged. -/
theorem group_append (later : List (Partition × Record)) :
    group (polled ++ later) = merge (group polled) (group later) := by
  induction later using List.reverseRecOn with
  | nil => rw [List.append_nil]; rfl
  | append_singleton later e ih =>
    rw [← List.append_assoc, group_concat, ih, group_concat,
      merge_joinTo (distinct_group later)]

/-- The records of one partition make one batch. -/
theorem group_paired_singleton {b : Batch} (hb : b.records ≠ []) : group (paired [b]) = [b] := by
  obtain ⟨p, records⟩ := b
  induction records using List.reverseRecOn with
  | nil => exact absurd rfl hb
  | append_singleton records r ih =>
    have hsplit : paired [⟨p, records ++ [r]⟩] = paired [⟨p, records⟩] ++ [(p, r)] := by
      simp [paired]
    rw [hsplit, group_concat]
    by_cases hnil : records = []
    · rw [hnil]
      rfl
    · rw [ih hnil, joinTo, if_pos rfl, append]

/-- Batches are made again of their records. -/
theorem group_paired {bs : List Batch} (h : Distinct bs) (hne : ∀ b ∈ bs, b.records ≠ []) :
    group (paired bs) = bs := by
  induction bs with
  | nil => rfl
  | cons b bs ih =>
    obtain ⟨hb, hrest⟩ := List.forall_mem_cons.mp hne
    have hsplit : paired (b :: bs) = paired [b] ++ paired bs := by
      simp [paired]
    rw [hsplit, group_append, group_paired_singleton hb, ih (distinct_cons.mp h).2 hrest]
    exact merge_eq_append h

/-- Splitting batches into single records pairs these with the same
partitions. -/
theorem paired_singles (bs : List Batch) : paired (bs.flatMap singles) = paired bs := by
  simp [paired, singles, List.flatMap_assoc, List.map_eq_flatMap]

/-- The partitions of a group stand in the order of their first records. -/
theorem partitions_group :
    (group polled).map (·.partition) = (polled.map (·.1)).eraseDups := by
  induction polled using List.reverseRecOn with
  | nil => rfl
  | append_singleton polled e ih =>
    rw [group_concat, partitions_joinTo, ih, List.map_append, List.eraseDups_append]
    by_cases he : e.1 ∈ polled.map (·.1)
    · simp [List.removeAll, he]
    · simp [List.removeAll, he, List.eraseDups_cons]

/-- Grouping keeps the records of each partition in the order of arrival. -/
theorem recordsOf_group (p : Partition) :
    recordsOf p (group polled) = arrivals polled p := by
  induction polled using List.reverseRecOn with
  | nil => rfl
  | append_singleton polled e ih =>
    rw [group_concat, recordsOf_joinTo (distinct_group polled), ih]
    by_cases he : e.1 = p
    · simp [arrivals, he]
    · simp [arrivals, he, Ne.symm he]

/-- A group has one batch for each partition, in the order of first records, and
in it the records of the partition as they have arrived. -/
theorem group_eq :
    group polled = (polled.map (·.1)).eraseDups.map fun p => ⟨p, arrivals polled p⟩ := by
  rw [← partitions_group, List.map_map]
  refine (List.map_id _).symm.trans (List.map_congr_left fun b hb => ?_)
  rw [Function.comp_apply, ← recordsOf_group, recordsOf_of_mem (distinct_group polled) hb]
  rfl

end Group

/-- What a group of polled records is.  It has one batch for each partition, in
the order in which the partitions are first seen (`List.eraseDups` keeps the
first of equal elements); the batch holds the records of the partition in the
order of arrival and is not empty.  So all batches together have the polled
records, and grouping the single records of all batches gives the same batches.
Records that follow others are grouped as if by themselves, and their batches
then extend those before them. -/
theorem group_conserves (polled later : List (Partition × Record)) :
    group polled = (polled.map (·.1)).eraseDups.map (fun p => ⟨p, arrivals polled p⟩) ∧
      Distinct (group polled) ∧ (∀ b ∈ group polled, b.records ≠ []) ∧
      (paired (group polled)).Perm polled ∧
      group (paired ((group polled).flatMap singles)) = group polled ∧
      group (polled ++ later) = merge (group polled) (group later) := by
  have hdistinct := distinct_group polled
  have hne := records_ne_nil_group polled
  refine ⟨group_eq polled, hdistinct, hne, perm_paired_group polled, ?_,
    group_append polled later⟩
  rw [paired_singles]
  exact group_paired hdistinct hne

end RecordDispatch.Batch
