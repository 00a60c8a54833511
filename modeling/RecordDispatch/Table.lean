import RecordDispatch.Partition

/-!
# Tables keyed by partition

A `Table` maps finitely many partitions to values.  Its entries are a list in
no particular order, and no partition has two of them.

What a table holds for a partition is `find?`.  It is the view through which
every operation is known: the lemmas below say what each one does to it.  The
operations that keep or drop entries by their partition are cases of
`filterKeys`, and `union` is the one that combines two tables.  `sorted` lists
the entries in the order of their partitions.
-/

namespace RecordDispatch

/-- A finite map from partitions. -/
structure Table (α : Type) where
  entries : List (Partition × α) := []
  /-- No partition has two entries. -/
  distinct : (entries.map (·.1)).Nodup := by exact List.nodup_nil

namespace Table

variable {α : Type}

instance : Inhabited (Table α) := ⟨{}⟩

/-! ## Reading -/

/-- What the table holds for a partition. -/
def find? (t : Table α) (p : Partition) : Option α :=
  t.entries.lookup p

/-- Whether the table holds something for a partition. -/
def contains (t : Table α) (p : Partition) : Bool :=
  (t.find? p).isSome

/-- The partitions with an entry. -/
def keys (t : Table α) : List Partition :=
  t.entries.map (·.1)

/-- The values. -/
def values (t : Table α) : List α :=
  t.entries.map (·.2)

/-- The number of entries. -/
def size (t : Table α) : Nat :=
  t.entries.length

/-- Whether there is no entry. -/
def isEmpty (t : Table α) : Bool :=
  t.entries.isEmpty

/-- The entries in the order of their partitions. -/
def sorted (t : Table α) : List (Partition × α) :=
  t.entries.mergeSort fun a b => a.1.le b.1

/-! ## Changing -/

/-- The entries whose partition satisfies a condition. -/
def filterKeys (t : Table α) (keep : Partition → Bool) : Table α where
  entries := t.entries.filter fun e => keep e.1
  distinct := t.distinct.sublist (List.filter_sublist.map _)

/-- The table without an entry for a partition. -/
def erase (t : Table α) (p : Partition) : Table α :=
  t.filterKeys fun q => q != p

/-- The table without entries for some partitions. -/
def eraseAll (t : Table α) (ps : List Partition) : Table α :=
  t.filterKeys fun q => !ps.contains q

/-- The entries of some partitions. -/
def restrict (t : Table α) (ps : List Partition) : Table α :=
  t.filterKeys ps.contains

/-- A table without an entry for a partition does not list it. -/
theorem notMem_keys_erase (t : Table α) (p : Partition) : p ∉ (t.erase p).keys := by
  simp [keys, erase, filterKeys]

/-- The table that holds a value for a partition, in place of what it held for
it. -/
def insert (t : Table α) (p : Partition) (a : α) : Table α where
  entries := (p, a) :: (t.erase p).entries
  distinct := List.nodup_cons.mpr ⟨t.notMem_keys_erase p, (t.erase p).distinct⟩

/-- Change what the table holds for a partition, if it holds something. -/
def modify (t : Table α) (p : Partition) (f : α → α) : Table α :=
  match t.find? p with
  | some a => t.insert p (f a)
  | none => t

/-- Put the entries of another table into the table.  Where both hold a value,
the two are combined. -/
def union (t : Table α) (combine : α → α → α) (u : Table α) : Table α :=
  u.entries.foldl
    (fun t e =>
      match t.find? e.1 with
      | some a => t.insert e.1 (combine a e.2)
      | none => t.insert e.1 e.2)
    t

/-- The table with the given entries; of two entries for one partition the
later counts. -/
def ofList (entries : List (Partition × α)) : Table α :=
  entries.foldl (fun t e => t.insert e.1 e.2) {}

/-! ## What each operation does to the view -/

@[simp] theorem find?_empty (p : Partition) : ({} : Table α).find? p = none := rfl

@[simp] theorem find?_filterKeys (t : Table α) (keep : Partition → Bool) (p : Partition) :
    (t.filterKeys keep).find? p = if keep p then t.find? p else none := by
  obtain ⟨es, hd⟩ := t
  simp only [find?, filterKeys]
  clear hd
  induction es with
  | nil => simp
  | cons e es ih =>
    obtain ⟨q, a⟩ := e
    by_cases hq : p = q
    · subst hq
      cases hk : keep p <;> simp [hk, ih]
    · have hne : (p == q) = false := beq_eq_false_iff_ne.mpr hq
      cases hk : keep q <;> simp [hk, ih, List.lookup_cons, hne]

@[simp] theorem find?_erase (t : Table α) (p q : Partition) :
    (t.erase p).find? q = if q = p then none else t.find? q := by
  simp only [erase, find?_filterKeys]
  by_cases hq : q = p <;> simp [hq]

@[simp] theorem find?_eraseAll (t : Table α) (ps : List Partition) (q : Partition) :
    (t.eraseAll ps).find? q = if q ∈ ps then none else t.find? q := by
  simp only [eraseAll, find?_filterKeys]
  by_cases hq : q ∈ ps <;> simp [hq]

@[simp] theorem find?_restrict (t : Table α) (ps : List Partition) (q : Partition) :
    (t.restrict ps).find? q = if q ∈ ps then t.find? q else none := by
  simp only [restrict, find?_filterKeys, List.contains_eq_mem, decide_eq_true_eq]

@[simp] theorem find?_insert (t : Table α) (p q : Partition) (a : α) :
    (t.insert p a).find? q = if q = p then some a else t.find? q := by
  have h := find?_erase t p q
  simp only [find?, insert, List.lookup_cons] at h ⊢
  by_cases hq : q = p
  · simp [hq]
  · simp [beq_eq_false_iff_ne.mpr hq, h, hq]

@[simp] theorem find?_modify (t : Table α) (p q : Partition) (f : α → α) :
    (t.modify p f).find? q = if q = p then (t.find? q).map f else t.find? q := by
  unfold modify
  by_cases hq : q = p
  · subst hq
    cases ha : t.find? q <;> simp [ha]
  · split <;> simp [hq]

/-- Of the entries that are put into a table one after another only the one for
a partition matters to what the table holds for it, if there is but one. -/
theorem find?_foldl_union (combine : α → α → α) (p : Partition) :
    ∀ (es : List (Partition × α)) (t : Table α), (es.map (·.1)).Nodup →
      (es.foldl (fun t e =>
        match t.find? e.1 with
        | some a => t.insert e.1 (combine a e.2)
        | none => t.insert e.1 e.2) t).find? p =
      Option.merge combine (t.find? p) (es.lookup p)
  | [], t, _ => by cases h : t.find? p <;> simp [h]
  | (q, b) :: es, t, hd => by
    obtain ⟨hq, hes⟩ := List.nodup_cons.mp hd
    rw [List.foldl_cons, find?_foldl_union combine p es _ hes]
    by_cases hp : p = q
    · subst hp
      have hnone : es.lookup p = none := by
        rw [List.lookup_eq_none_iff]
        intro e he
        exact bne_iff_ne.mpr fun h => hq (List.mem_map.mpr ⟨e, he, h.symm⟩)
      cases t.find? p <;> simp [hnone]
    · have hne : (p == q) = false := beq_eq_false_iff_ne.mpr hp
      cases ht : t.find? q <;> simp [hp, List.lookup_cons, hne]

theorem find?_union (t u : Table α) (combine : α → α → α) (p : Partition) :
    (t.union combine u).find? p = Option.merge combine (t.find? p) (u.find? p) :=
  find?_foldl_union combine p u.entries t u.distinct

theorem contains_iff {t : Table α} {p : Partition} :
    t.contains p = true ↔ ∃ a, t.find? p = some a :=
  Option.isSome_iff_exists

@[simp] theorem mem_keys {t : Table α} {p : Partition} :
    p ∈ t.keys ↔ t.contains p = true := by
  obtain ⟨es, hd⟩ := t
  simp only [keys, contains, find?]
  clear hd
  induction es with
  | nil => simp
  | cons e es ih =>
    by_cases hp : p = e.1 <;> simp [hp, ih]

/-- The entries are exactly what `find?` finds. -/
theorem mem_entries {t : Table α} {p : Partition} {a : α} :
    (p, a) ∈ t.entries ↔ t.find? p = some a := by
  obtain ⟨es, hd⟩ := t
  simp only [find?]
  induction es with
  | nil => simp
  | cons e es ih =>
    obtain ⟨q, b⟩ := e
    obtain ⟨hq, hes⟩ := List.nodup_cons.mp hd
    by_cases hp : p = q
    · subst hp
      have hnot : (p, a) ∉ es := fun h => hq (List.mem_map.mpr ⟨_, h, rfl⟩)
      simp [hnot, eq_comm]
    · have hne : (p == q) = false := beq_eq_false_iff_ne.mpr hp
      simp [List.lookup_cons, hne, hp, ih hes]

theorem isEmpty_iff {t : Table α} : t.isEmpty = true ↔ ∀ p, t.find? p = none := by
  obtain ⟨es, hd⟩ := t
  cases es with
  | nil => simp [isEmpty, find?]
  | cons e es =>
    simp only [isEmpty, List.isEmpty_cons, Bool.false_eq_true, false_iff]
    intro h
    simpa [find?] using h e.1

theorem sorted_perm (t : Table α) : t.sorted.Perm t.entries :=
  List.mergeSort_perm _ _

end Table
end RecordDispatch
