import RecordDispatch.Dispatch.Event
import RecordDispatch.Proofs.Workers

/-!
# What a journal says

The journal of a dispatcher lists what has happened, newest first.  The journal
at an earlier time is therefore a suffix of it, and `e :: older <:+ journal`
says that `e` happened when the journal was `older`.

* `period` is what a journal says of a partition since it was last drained:
  which processors were started, what polls returned, and which records these
  processors have handled.  A period ends with the revocation that drains the
  partition, once that revocation has made its commit.
* `Event.request?` is the request to the broker that an event stands for, and
  `lastCommitted` the offset of a partition that the broker accepted last.
* `Settled` says of an offset that it is safe to commit.  It compares an offset
  with what was polled and what was handled, and takes nothing for granted about
  the order of offsets; `Settled.covers` adds that order.
* `Along` carries a statement about single events through a journal.
* Events that none of this looks at are quiet (`Event.isQuiet`).
-/

namespace RecordDispatch.Dispatch

/-! ## Reading single events -/

namespace Event

/-- The processor and the record, if the event says that one was handled. -/
def handled? : Event → Option (ProcessorId × Record)
  | .workers e => e.handled?
  | _ => none

/-- The request with which the broker was asked to commit. -/
def request? : Event → Option Broker.Request
  | .commit (.committed offsets mode _) => some (.commit mode offsets true)
  | .commit (.failed offsets mode _ _) => some (.commit mode offsets false)
  | .revokeCommitted offsets => some (.commit .sync offsets true)
  | .revokeCommitFailed offsets _ => some (.commit .sync offsets false)
  | _ => none

/-- Whether a revocation begins. -/
def isRevoking : Event → Bool
  | .revoking _ => true
  | _ => false

/-- Whether the event changes no period and stands for no commit. -/
def isQuiet : Event → Bool
  | .polled _ => false
  | .started _ _ => false
  | .startedSingles _ _ => false
  | .revoked _ _ => false
  | .commit _ => false
  | .revokeCommitted _ => false
  | .revokeCommitFailed _ _ => false
  | .workers e => e.handled?.isNone
  | _ => true

theorem handled?_of_isQuiet {e : Event} (h : e.isQuiet = true) : e.handled? = none := by
  cases e with
  | workers e => exact Option.isNone_iff_eq_none.mp h
  | _ => rfl

theorem request?_of_isQuiet {e : Event} (h : e.isQuiet = true) : e.request? = none := by
  cases e with
  | commit | revokeCommitted | revokeCommitFailed => exact absurd h Bool.false_ne_true
  | _ => rfl

end Event

/-! ## Periods -/

/-- What has happened to a partition since it was last drained. -/
structure Period where
  /-- The processors that were started. -/
  started : List ProcessorId := []
  /-- The records that polls returned, in order. -/
  polled : List Record := []
  /-- The records that these processors have handled, in the order in which
  they were handled. -/
  handled : List Record := []

/-- The records of a partition in batches. -/
def recordsOf (p : Partition) (batches : List Batch) : List Record :=
  (batches.filter fun b => b.partition = p).flatMap (·.records)

theorem recordsOf_cons (p : Partition) (batch : Batch) (batches : List Batch) :
    recordsOf p (batch :: batches) =
      (if p = batch.partition then batch.records else []) ++ recordsOf p batches := by
  by_cases hp : p = batch.partition
  · simp [recordsOf, hp]
  · simp [recordsOf, hp, Ne.symm hp]

/-- An empty batch has no records. -/
theorem recordsOf_cons_of_isEmpty {batch : Batch} (h : batch.isEmpty = true)
    (batches : List Batch) (p : Partition) :
    recordsOf p (batch :: batches) = recordsOf p batches := by
  rw [recordsOf_cons, List.isEmpty_iff.mp h, ite_self, List.nil_append]

theorem recordsOf_eq_nil {p : Partition} {batches : List Batch}
    (h : p ∉ batches.map (·.partition)) : recordsOf p batches = [] := by
  refine List.flatMap_eq_nil_iff.mpr fun batch hbatch => ?_
  obtain ⟨hmem, hp⟩ := List.mem_filter.mp hbatch
  exact absurd (List.mem_map.mpr ⟨batch, hmem, of_decide_eq_true hp⟩) h

/-- If there is one batch of each partition, the records of a partition are those
of its batch. -/
theorem recordsOf_of_mem {batches : List Batch} (hd : (batches.map (·.partition)).Nodup)
    {batch : Batch} (h : batch ∈ batches) : recordsOf batch.partition batches = batch.records := by
  induction batches with
  | nil => exact absurd h List.not_mem_nil
  | cons first rest ih =>
    rw [List.map_cons, List.nodup_cons] at hd
    rw [recordsOf_cons]
    rcases List.mem_cons.mp h with rfl | h
    · rw [if_pos rfl, recordsOf_eq_nil hd.1, List.append_nil]
    · have hne : batch.partition ≠ first.partition := fun heq =>
        hd.1 (heq ▸ List.mem_map.mpr ⟨batch, h, rfl⟩)
      rw [if_neg hne, List.nil_append, ih hd.2 h]

namespace Period

/-- The period with a record that a processor has handled.  Processors that
were started before the period do not count. -/
def handle (s : Period) (id : ProcessorId) (r : Record) : Period :=
  if id ∈ s.started then { s with handled := s.handled ++ [r] } else s

/-- The period of a partition after an event. -/
def next (p : Partition) (s : Period) : Event → Period
  | .polled batches => { s with polled := s.polled ++ recordsOf p batches }
  | .started id batch =>
    if batch.partition = p then { s with started := s.started ++ [id] } else s
  | .startedSingles ids batch =>
    if batch.partition = p then { s with started := s.started ++ ids } else s
  | .workers e =>
    match e.handled? with
    | some (id, r) => s.handle id r
    | none => s
  | .revoked ps _ => if p ∈ ps then {} else s
  | _ => s

theorem next_of_isQuiet {e : Event} (h : e.isQuiet = true) (p : Partition) (s : Period) :
    s.next p e = s := by
  cases e with
  | polled | started | startedSingles | revoked => exact absurd h Bool.false_ne_true
  | workers e =>
    have he : e.handled? = none := Option.isNone_iff_eq_none.mp h
    simp only [next, he]
  | _ => rfl

/-- A commit changes no period. -/
theorem next_of_request? {e : Event} {r : Broker.Request} (h : e.request? = some r)
    (p : Partition) (s : Period) : s.next p e = s := by
  cases e with
  | commit | revokeCommitted | revokeCommitFailed => rfl
  | _ => exact absurd h nofun

/-- One period comes after another if nothing is lost. -/
structure Le (s t : Period) : Prop where
  polled : s.polled <+: t.polled
  handled : s.handled <+: t.handled

theorem Le.refl (s : Period) : s.Le s := ⟨List.prefix_rfl, List.prefix_rfl⟩

theorem Le.trans {s t u : Period} (hst : s.Le t) (htu : t.Le u) : s.Le u :=
  ⟨hst.polled.trans htu.polled, hst.handled.trans htu.handled⟩

/-- The period with all records that processors have handled. -/
def handleAll (s : Period) (handled : List (ProcessorId × Record)) : Period :=
  handled.foldl (fun s x => s.handle x.1 x.2) s

theorem handleAll_of_mem {s : Period} {id : ProcessorId} (h : id ∈ s.started)
    (r? : Option Record) :
    s.handleAll (r?.toList.map fun r => (id, r)) =
      { s with handled := s.handled ++ r?.toList } := by
  cases r? <;> simp [handleAll, handle, h]

theorem handleAll_of_notMem {s : Period} {id : ProcessorId} (h : id ∉ s.started)
    (r? : Option Record) : s.handleAll (r?.toList.map fun r => (id, r)) = s := by
  cases r? <;> simp [handleAll, handle, h]

theorem le_handle (s : Period) (id : ProcessorId) (r : Record) : s.Le (s.handle id r) := by
  unfold handle
  split
  · exact ⟨List.prefix_rfl, List.prefix_append _ _⟩
  · exact .refl s

/-- Nothing is lost of a period before it ends. -/
theorem le_next {p : Partition} {e : Event} (s : Period)
    (h : ∀ ps n, e = .revoked ps n → p ∉ ps) : s.Le (s.next p e) := by
  cases e with
  | polled batches => exact ⟨List.prefix_append _ _, List.prefix_rfl⟩
  | started id batch | startedSingles ids batch =>
    simp only [next]
    split <;> exact ⟨List.prefix_rfl, List.prefix_rfl⟩
  | workers e =>
    simp only [next]
    split
    · exact s.le_handle _ _
    · exact .refl s
  | revoked ps n =>
    simp only [next, if_neg (h ps n rfl)]
    exact .refl s
  | _ => exact .refl s

end Period

/-- What a journal says of a partition since it was last drained. -/
def period (p : Partition) : List Event → Period
  | [] => {}
  | e :: older => (period p older).next p e

@[simp] theorem period_cons (p : Partition) (e : Event) (older : List Event) :
    period p (e :: older) = (period p older).next p e := rfl

theorem period_append_quiet {es : List Event} (h : ∀ e ∈ es, e.isQuiet = true)
    (p : Partition) (older : List Event) : period p (es ++ older) = period p older := by
  induction es with
  | nil => rfl
  | cons e es ih =>
    have hes := fun e' he' => h e' (List.mem_cons_of_mem e he')
    rw [List.cons_append, period_cons, ih hes,
      Period.next_of_isQuiet (h e List.mem_cons_self)]

/-- Nothing is lost of a period while no revocation ends. -/
theorem period_le_append {es : List Event} (h : ∀ e ∈ es, ∀ ps n, e ≠ .revoked ps n)
    (p : Partition) (older : List Event) : (period p older).Le (period p (es ++ older)) := by
  induction es with
  | nil => exact .refl _
  | cons e es ih =>
    refine (ih fun e' he' => h e' (List.mem_cons_of_mem e he')).trans (Period.le_next _ ?_)
    exact fun ps n heq => absurd heq (h e List.mem_cons_self ps n)

/-- What events of workers add to a period. -/
theorem period_append_workers (es : List Workers.Event) (p : Partition) (older : List Event) :
    period p ((es.map Event.workers).reverse ++ older) =
      (period p older).handleAll (es.filterMap Workers.Event.handled?) := by
  induction es generalizing older with
  | nil => rfl
  | cons e es ih =>
    have hlist : ((e :: es).map Event.workers).reverse ++ older =
        (es.map Event.workers).reverse ++ (.workers e :: older) := by
      simp
    rw [hlist, ih, period_cons, Period.next]
    cases he : e.handled? <;> simp [he, Period.handleAll]

/-- The records of a partition that a poll returned, if the event says so. -/
def Event.returned (p : Partition) : Event → List Record
  | .polled batches => recordsOf p batches
  | _ => []

/-- The records of a partition that polls returned, according to some events,
in order. -/
def polledIn (p : Partition) (events : List Event) : List Record :=
  events.reverse.flatMap (Event.returned p)

theorem polledIn_cons (p : Partition) (e : Event) (events : List Event) :
    polledIn p (e :: events) = polledIn p events ++ e.returned p := by
  simp [polledIn]

theorem polledIn_append (p : Partition) (newer older : List Event) :
    polledIn p (newer ++ older) = polledIn p older ++ polledIn p newer := by
  simp [polledIn]

/-- An event adds to a period what it says was polled, or ends the period. -/
theorem Period.polled_next (s : Period) (p : Partition) (e : Event) :
    (s.next p e).polled = s.polled ++ e.returned p ∨ (s.next p e).polled = [] := by
  cases e with
  | polled batches => exact Or.inl rfl
  | started id batch | startedSingles ids batch =>
    refine Or.inl ?_
    simp only [next, Event.returned, List.append_nil]
    split <;> rfl
  | workers e =>
    refine Or.inl ?_
    simp only [next, handle, Event.returned, List.append_nil]
    repeat' split
    all_goals rfl
  | revoked ps n =>
    simp only [next, Event.returned, List.append_nil]
    split
    · exact Or.inr rfl
    · exact Or.inl rfl
  | _ => exact Or.inl (List.append_nil _).symm

/-- Nothing is polled by an event that returns no records. -/
theorem Period.polled_next_eq (s : Period) {p : Partition} {e : Event}
    (hreturned : e.returned p = []) (hrevoked : ∀ ps n, e = .revoked ps n → p ∉ ps) :
    (s.next p e).polled = s.polled := by
  rcases s.polled_next p e with h | h
  · rw [h, hreturned, List.append_nil]
  · have hprefix := (s.le_next hrevoked).polled
    rw [h] at hprefix
    rw [h, List.prefix_nil.mp hprefix]

/-- What a period that began within some events has polled was polled in
them. -/
theorem polled_suffix_polledIn {p : Partition} {ps : List Partition} {n : Nat} (hp : p ∈ ps)
    (newer older : List Event) :
    (period p (newer ++ .revoked ps n :: older)).polled <:+ polledIn p newer := by
  induction newer with
  | nil => simp [Period.next, hp]
  | cons e newer ih =>
    rw [List.cons_append, period_cons, polledIn_cons]
    rcases Period.polled_next (period p (newer ++ .revoked ps n :: older)) p e with h | h
    · obtain ⟨before, hb⟩ := ih
      exact ⟨before, by rw [h, ← hb, List.append_assoc]⟩
    · rw [h]
      exact List.nil_suffix

/-! ## Offsets that are safe to commit -/

/-- The requests to commit for which events stand, newest first. -/
def requests (journal : List Event) : List Broker.Request :=
  journal.filterMap Event.request?

/-- The offset of a partition that the broker accepted last. -/
def lastCommitted (p : Partition) (journal : List Event) : Option Int :=
  ((requests journal).filterMap Broker.Request.committed?).findSome? fun c => c.2.find? p

/-- The offset `c` stands behind a record such that this record and all that
polls returned before it in the period are handled. -/
def Settled (s : Period) (c : Int) : Prop :=
  ∃ done, done <+: s.polled ∧ (∀ r ∈ done, r ∈ s.handled) ∧ ∃ r ∈ done, r.offset + 1 = c

theorem Settled.mono {s t : Period} {c : Int} (hst : s.Le t) (h : Settled s c) : Settled t c := by
  obtain ⟨done, hpre, hhandled, hlast⟩ := h
  exact ⟨done, hpre.trans hst.polled, fun r hr => hst.handled.subset (hhandled r hr), hlast⟩

/-- With ascending offsets the last record has the highest. -/
theorem offset_le_of_getLast? {rs : List Record} (hs : rs.Pairwise (·.offset ≤ ·.offset))
    {r last : Record} (hl : rs.getLast? = some last) (hr : r ∈ rs) : r.offset ≤ last.offset := by
  obtain ⟨before, rfl⟩ := List.getLast?_eq_some_iff.mp hl
  rcases List.mem_append.mp hr with hbefore | hlast
  · exact (List.pairwise_append.mp hs).2.2 r hbefore last List.mem_cons_self
  · exact Int.le_of_eq (congrArg Record.offset (List.mem_singleton.mp hlast))

/-- With ascending offsets every record below a settled offset is handled, and
one of them stands right before it. -/
theorem Settled.covers {s : Period} {c : Int} (h : Settled s c)
    (hs : s.polled.Pairwise (·.offset < ·.offset)) :
    (∃ r ∈ s.polled, r ∈ s.handled ∧ r.offset = c - 1) ∧
      ∀ r ∈ s.polled, r.offset < c → r ∈ s.handled := by
  obtain ⟨done, ⟨rest, hrest⟩, hhandled, last, hlast, hc⟩ := h
  refine ⟨⟨last, ?_, hhandled last hlast, by omega⟩, fun r hr hlt => ?_⟩
  · rw [← hrest]
    exact List.mem_append_left _ hlast
  · rw [← hrest] at hr hs
    rcases List.mem_append.mp hr with hdone | hafter
    · exact hhandled r hdone
    · have := (List.pairwise_append.mp hs).2.2 last hlast r hafter
      omega

/-! ## Statements about every event of a journal -/

/-- An event at a position, with the events after it and the journal before
it. -/
theorem journal_split {journal : List Event} {n : Nat} {e : Event}
    (h : journal[n]? = some e) : journal = journal.take n ++ e :: journal.drop (n + 1) := by
  obtain ⟨hn, rfl⟩ := List.getElem?_eq_some_iff.mp h
  rw [List.getElem_cons_drop, List.take_append_drop]

/-- A statement about an event and the journal before it holds for every event
of a journal. -/
def Along (good : Event → List Event → Prop) (journal : List Event) : Prop :=
  ∀ e older, e :: older <:+ journal → good e older

theorem along_nil (good : Event → List Event → Prop) : Along good [] := by
  intro e older h
  simp at h

theorem along_cons {good : Event → List Event → Prop} {e : Event} {journal : List Event} :
    Along good (e :: journal) ↔ good e journal ∧ Along good journal := by
  constructor
  · intro h
    exact ⟨h e journal List.suffix_rfl,
      fun e' older hs => h e' older (hs.trans (List.suffix_cons e journal))⟩
  · rintro ⟨he, h⟩ e' older hs
    rcases List.suffix_cons_iff.mp hs with heq | hs
    · obtain ⟨rfl, rfl⟩ := List.cons.inj heq
      exact he
    · exact h e' older hs

/-- What a commit asks the broker to commit is settled. -/
def CommitSettled (e : Event) (older : List Event) : Prop :=
  ∀ mode offsets accepted, e.request? = some (.commit mode offsets accepted) →
    ∀ p c, offsets.find? p = some c → Settled (period p older) c

theorem commitSettled_of_none {e : Event} (h : e.request? = none) (older : List Event) :
    CommitSettled e older := by
  intro mode offsets accepted hr
  rw [h] at hr
  exact absurd hr nofun

end RecordDispatch.Dispatch
