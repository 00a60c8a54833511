import RecordDispatch.Envelope
import RecordDispatch.Partition

/-!
# Records and batches

A record is an entry of the log of a partition, addressed by its offset.  A
batch holds records of one partition in offset order.

`Batch.group` sorts polled records into batches by partition, `Batch.append`
joins two batches of one partition and `Batch.singles` splits a batch into
batches of one record.
-/

namespace RecordDispatch

/-- An entry of a partition's log.  A record without a payload marks a
deletion. -/
structure Record where
  /-- The place in the log.  An offset fits a signed 64-bit word, and offsets below
  the greatest such integer are meant: for these the next offset, `offset + 1`,
  fits as well. -/
  offset : Int
  key : Option Bytes := none
  payload : Option Bytes := none
deriving DecidableEq

/-- Records of one partition, in offset order. -/
structure Batch where
  partition : Partition
  records : List Record
deriving DecidableEq

namespace Batch

/-- The number of records. -/
def size (b : Batch) : Nat :=
  b.records.length

/-- Whether there is no record. -/
def isEmpty (b : Batch) : Bool :=
  b.records.isEmpty

/-- The offset of the first record. -/
def firstOffset? (b : Batch) : Option Int :=
  b.records.head?.map (·.offset)

/-- The offset of the last record. -/
def lastOffset? (b : Batch) : Option Int :=
  b.records.getLast?.map (·.offset)

/-- The records of a batch, then those of a later batch of its partition. -/
def append (b later : Batch) : Batch :=
  { b with records := b.records ++ later.records }

/-- One batch for each record. -/
def singles (b : Batch) : List Batch :=
  b.records.map fun r => ⟨b.partition, [r]⟩

/-- Put a record at the end of the batch of its partition, or in a new batch
after all others. -/
def addTo (p : Partition) (r : Record) : List Batch → List Batch
  | [] => [⟨p, [r]⟩]
  | b :: bs =>
    if b.partition = p then { b with records := b.records ++ [r] } :: bs
    else b :: addTo p r bs

/-- One batch for each partition, in the order in which the partitions are
first seen, each with its records in the order of arrival. -/
def group (polled : List (Partition × Record)) : List Batch :=
  polled.foldl (fun bs e => addTo e.1 e.2 bs) []

/-- Records with the offsets from `start` on, each with the same payload and
no key. -/
def ofRange (p : Partition) (start : Int) (count : Nat) (payload : Bytes) : Batch :=
  ⟨p, (List.range count).map fun (i : Nat) => ⟨start + i, none, some payload⟩⟩

@[simp] theorem records_append (b later : Batch) :
    (b.append later).records = b.records ++ later.records := rfl

@[simp] theorem partition_append (b later : Batch) :
    (b.append later).partition = b.partition := rfl

end Batch
end RecordDispatch
