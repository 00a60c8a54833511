import RecordDispatch.Report.Metrics
import RecordDispatch.Table

/-!
# The ledger of committable offsets

For each partition the ledger holds the next offset that is safe to commit
(`pending`) and remembers the one that was last handed out for a commit
(`flushed`).

A pending offset only moves forward, and an offset at or below the one last
handed out is not taken up again.  A commit empties the pending side with
`drain`; if it fails, `restore` puts the offsets back.  When partitions are
given up, `pendingOf` reads what is pending for them and `forget` drops it;
`clear` drops everything.

`get?` and `flushed.find?` are the view of a ledger: the lemmas at the end say
what each operation does to them.
-/

namespace RecordDispatch

/-- Next offsets to consume, by partition. -/
abbrev Offsets := Table Int

/-- The committable offsets. -/
structure Ledger where
  pending : Offsets := {}
  flushed : Offsets := {}
deriving Inhabited

namespace Ledger

/-- What the ledger tells. -/
inductive Event
  /-- A pending offset moved forward. -/
  | advanced (p : Partition) (current next : Int)
  /-- An offset below the pending one was ignored. -/
  | stale (p : Partition) (current next : Int)

open Report in
instance : Reported Event where
  line?
    | .advanced p current next => some
      { level := .debug
        source := "offset_ledger"
        message := "Advancing committable offset"
        fields := partitionFields p ++
          [("previous_offset", .number current), ("new_offset", .number next)] }
    | .stale p current next => some
      { level := .warn
        source := "offset_ledger"
        message := "Ignoring stale offset for partition"
        fields := partitionFields p ++
          [("current_offset", .number current), ("stale_offset", .number next)] }
  measurements
    | .advanced _ _ _ => []
    | .stale p _ _ => [.count (own "ledger_stale_offset_total" [("topic", p.topic)]) 1]

/-- The pending offset of a partition. -/
def get? (l : Ledger) (p : Partition) : Option Int :=
  l.pending.find? p

/-- Whether a partition has a pending offset. -/
def contains (l : Ledger) (p : Partition) : Bool :=
  l.pending.contains p

/-- Whether no offset is pending. -/
def isEmpty (l : Ledger) : Bool :=
  l.pending.isEmpty

/-- The number of pending offsets. -/
def size (l : Ledger) : Nat :=
  l.pending.size

/-- Whether an offset was already handed out, or a higher one. -/
def isFlushed (l : Ledger) (p : Partition) (next : Int) : Bool :=
  match l.flushed.find? p with
  | some flushed => decide (next ≤ flushed)
  | none => false

/-- Whether recording an offset changes the ledger: it was not handed out
before and lies above the pending one. -/
def advances (l : Ledger) (p : Partition) (next : Int) : Bool :=
  !l.isFlushed p next &&
    match l.get? p with
    | some current => decide (current < next)
    | none => true

/-- Record the next offset of a partition. -/
def record (l : Ledger) (p : Partition) (next : Int) : Ledger :=
  if l.advances p next then { l with pending := l.pending.insert p next } else l

/-- What recording an offset tells. -/
def recordEvents (l : Ledger) (p : Partition) (next : Int) : List Event :=
  if l.isFlushed p next then []
  else
    match l.get? p with
    | none => []
    | some current =>
      if current < next then [.advanced p current next]
      else if next < current then [.stale p current next]
      else []

/-- Hand out every pending offset for a commit. -/
def drain (l : Ledger) : Ledger :=
  { pending := {}
    flushed := l.flushed.union (fun _ next => next) l.pending }

/-- The ledger without what it knows about some partitions. -/
def forget (l : Ledger) (ps : List Partition) : Ledger :=
  { pending := l.pending.eraseAll ps
    flushed := l.flushed.eraseAll ps }

/-- Forget every partition. -/
def clear (_ : Ledger) : Ledger := {}

/-- The pending offsets of some partitions. -/
def pendingOf (l : Ledger) (ps : List Partition) : Offsets :=
  l.pending.restrict ps

/-- Put back offsets whose commit failed.  A higher pending offset stays. -/
def restore (l : Ledger) (offsets : Offsets) : Ledger :=
  { l with pending := l.pending.union max offsets }

/-! ## What each operation does to the view -/

@[simp] theorem get?_empty (p : Partition) : ({} : Ledger).get? p = none := rfl

theorem get?_record (l : Ledger) (p q : Partition) (next : Int) :
    (l.record p next).get? q =
      if q = p ∧ l.advances p next = true then some next else l.get? q := by
  unfold record get?
  by_cases ha : l.advances p next = true <;> by_cases hq : q = p <;> simp [ha, hq]

@[simp] theorem flushed_record (l : Ledger) (p : Partition) (next : Int) :
    (l.record p next).flushed = l.flushed := by
  unfold record
  split <;> rfl

/-- An offset that advances the ledger lies above the pending one. -/
theorem lt_of_advances {l : Ledger} {p : Partition} {next current : Int}
    (ha : l.advances p next = true) (hc : l.get? p = some current) : current < next := by
  simp only [advances, hc, Bool.and_eq_true, decide_eq_true_eq] at ha
  exact ha.2

/-- An offset that advances the ledger lies above the one last handed out. -/
theorem flushed_lt_of_advances {l : Ledger} {p : Partition} {next flushed : Int}
    (ha : l.advances p next = true) (hf : l.flushed.find? p = some flushed) :
    flushed < next := by
  simp only [advances, isFlushed, hf, Bool.and_eq_true, Bool.not_eq_true',
    decide_eq_false_iff_not] at ha
  exact Int.not_le.mp ha.1

@[simp] theorem get?_drain (l : Ledger) (p : Partition) : l.drain.get? p = none := rfl

@[simp] theorem isEmpty_drain (l : Ledger) : l.drain.isEmpty = true := rfl

theorem flushed_drain (l : Ledger) (p : Partition) :
    l.drain.flushed.find? p = (l.get? p).or (l.flushed.find? p) := by
  simp only [drain, Table.find?_union, get?]
  cases l.flushed.find? p <;> cases l.pending.find? p <;> rfl

@[simp] theorem get?_forget (l : Ledger) (ps : List Partition) (p : Partition) :
    (l.forget ps).get? p = if p ∈ ps then none else l.get? p :=
  Table.find?_eraseAll l.pending ps p

@[simp] theorem flushed_forget (l : Ledger) (ps : List Partition) (p : Partition) :
    (l.forget ps).flushed.find? p = if p ∈ ps then none else l.flushed.find? p :=
  Table.find?_eraseAll l.flushed ps p

@[simp] theorem find?_pendingOf (l : Ledger) (ps : List Partition) (p : Partition) :
    (l.pendingOf ps).find? p = if p ∈ ps then l.get? p else none :=
  Table.find?_restrict l.pending ps p

theorem get?_restore (l : Ledger) (offsets : Offsets) (p : Partition) :
    (l.restore offsets).get? p = Option.merge max (l.get? p) (offsets.find? p) :=
  Table.find?_union l.pending offsets max p

@[simp] theorem flushed_restore (l : Ledger) (offsets : Offsets) :
    (l.restore offsets).flushed = l.flushed := rfl

/-- A commit that fails leaves every pending offset as it was. -/
theorem get?_restore_drain (l : Ledger) (p : Partition) :
    (l.drain.restore l.pending).get? p = l.get? p := by
  rw [get?_restore, get?_drain, Option.merge_none_left]
  rfl

theorem isEmpty_iff {l : Ledger} : l.isEmpty = true ↔ ∀ p, l.get? p = none :=
  Table.isEmpty_iff

end Ledger
end RecordDispatch
