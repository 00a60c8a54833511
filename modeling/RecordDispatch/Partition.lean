/-!
# Partitions

A partition is a numbered part of a topic.  Partitions are ordered by topic,
then by number.
-/

namespace RecordDispatch

/-- A numbered part of a topic. -/
structure Partition where
  topic : String
  number : Int
deriving DecidableEq, Inhabited

namespace Partition

/-- Topic and number, with a slash between them. -/
def render (p : Partition) : String :=
  p.topic ++ "/" ++ toString p.number

/-- Whether `p` stands before `q` or is `q`. -/
def le (p q : Partition) : Bool :=
  decide (p.topic < q.topic) || (p.topic == q.topic && decide (p.number ≤ q.number))

/-- Partitions in order. -/
def sort (ps : List Partition) : List Partition :=
  ps.mergeSort le

theorem sort_perm (ps : List Partition) : (sort ps).Perm ps :=
  List.mergeSort_perm ps le

@[simp] theorem mem_sort {p : Partition} {ps : List Partition} :
    p ∈ sort ps ↔ p ∈ ps :=
  (sort_perm ps).mem_iff

end Partition
end RecordDispatch
