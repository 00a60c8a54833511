import Mathlib.Data.List.Sort
import RecordDispatch.Table

/-!
# Sorted tables

Partitions are ordered by topic, then by number (`Partition.Precedes`).  So the
sorted entries of a table have each partition once, each before the ones that
it precedes (`Table.pairwise_sorted`), and do not depend on anything but what
the table holds (`Table.sorted_congr`).
-/

namespace RecordDispatch

variable {α : Type}

namespace Partition

/-- A partition stands before another one. -/
def Precedes (p q : Partition) : Prop :=
  p.topic < q.topic ∨ p.topic = q.topic ∧ p.number < q.number

variable {p q r : Partition}

theorem le_iff :
    p.le q = true ↔ p.topic < q.topic ∨ p.topic = q.topic ∧ p.number ≤ q.number := by
  simp only [le, Bool.or_eq_true, Bool.and_eq_true, decide_eq_true_eq, beq_iff_eq]

theorem Precedes.asymm (h : p.Precedes q) : ¬ q.Precedes p := by
  rintro (ht' | ⟨ht', hn'⟩) <;> obtain ht | ⟨ht, hn⟩ := h
  · exact String.lt_asymm ht ht'
  · exact String.lt_irrefl _ (ht ▸ ht')
  · exact String.lt_irrefl _ (ht' ▸ ht)
  · omega

instance : Std.Asymm Precedes := ⟨fun _ _ => Precedes.asymm⟩

theorem precedes_of_le (h : p.le q = true) (hne : p ≠ q) : p.Precedes q := by
  refine (le_iff.mp h).imp_right fun ⟨ht, hn⟩ => ⟨ht, Int.lt_iff_le_and_ne.mpr ⟨hn, fun heq => ?_⟩⟩
  obtain ⟨topic, number⟩ := p
  cases ht
  cases heq
  exact hne rfl

theorem le_trans (hpq : p.le q = true) (hqr : q.le r = true) : p.le r = true := by
  rw [le_iff] at hpq hqr ⊢
  rcases hpq with ht | ⟨ht, hn⟩
  · rcases hqr with ht' | ⟨ht', -⟩
    · exact Or.inl (String.lt_trans ht ht')
    · exact Or.inl (ht' ▸ ht)
  · rcases hqr with ht' | ⟨ht', hn'⟩
    · exact Or.inl (ht ▸ ht')
    · exact Or.inr ⟨ht.trans ht', Int.le_trans hn hn'⟩

theorem le_total (p q : Partition) : (p.le q || q.le p) = true := by
  rw [Bool.or_eq_true, le_iff, le_iff]
  by_cases ht : p.topic = q.topic
  · exact (Int.le_total p.number q.number).imp (fun hn => Or.inr ⟨ht, hn⟩)
      fun hn => Or.inr ⟨ht.symm, hn⟩
  · rcases String.le_total p.topic q.topic with hle | hle
    · exact Or.inl (Or.inl (Std.lt_of_le_of_ne hle ht))
    · exact Or.inr (Or.inl (Std.lt_of_le_of_ne hle (Ne.symm ht)))

end Partition

namespace Table

/-- The sorted entries have each partition once, in order. -/
theorem pairwise_sorted (t : Table α) :
    t.sorted.Pairwise fun a b => a.1.Precedes b.1 := by
  have hle : t.sorted.Pairwise fun a b => a.1.le b.1 = true := by
    refine List.pairwise_mergeSort ?_ ?_ _
    · exact fun a b c => Partition.le_trans
    · exact fun a b => Partition.le_total a.1 b.1
  have hne : t.sorted.Pairwise fun a b => a.1 ≠ b.1 :=
    List.pairwise_map.mp ((t.sorted_perm.map _).nodup_iff.mpr t.distinct)
  exact (hle.and hne).imp fun h => Partition.precedes_of_le h.1 h.2

theorem mem_sorted {t : Table α} {p : Partition} {a : α} :
    (p, a) ∈ t.sorted ↔ t.find? p = some a :=
  t.sorted_perm.mem_iff.trans mem_entries

/-- Tables that hold the same have the same sorted entries. -/
theorem sorted_congr {t u : Table α} (h : ∀ p, t.find? p = u.find? p) : t.sorted = u.sorted := by
  refine t.pairwise_sorted.eq_of_mem_iff u.pairwise_sorted fun ⟨p, a⟩ => ?_
  rw [mem_sorted, mem_sorted, h]

end Table
end RecordDispatch
