import RecordDispatch.Proofs.Dispatcher
import RecordDispatch.Proofs.Unordered.Tally

/-!
# The cycle of an unordered dispatcher

`FlightInv` is the invariant between the calls of an unordered dispatcher, and
also while a cycle takes up what a poll has returned.  There is one lemma for
each step of a cycle.

* `settle`: offsets are recorded only after a wait in which all work has come to
  an end.  None of it was asked to stop, so all of it has finished.
* `receive`: every record of a batch gets a processor of its own.
-/

namespace RecordDispatch.UnorderedDispatcher

open Dispatch

/-- The processors of a partition that are in flight. -/
def flightOf (d : UnorderedDispatcher) (p : Partition) : List ProcessorId :=
  (d.held.processors.find? p).getD []

/-- A dispatcher accounts for what was in flight of partitions, with the ledger
that goes with it. -/
structure Tracked (base : List Broker.Request) (flying : Partition → List ProcessorId)
    (waiting : Partition → List Record) (l : Ledger) (d : UnorderedDispatcher) : Prop where
  tallies : TalliesInv d.workers d.journal l flying waiting
  flights : ∀ p ids, d.held.processors.find? p = some ids → flying p = ids
  /-- No processor in flight was asked to stop. -/
  unstopped : ∀ p, ∀ id ∈ flightOf d p, d.workers.Unstopped id
  linked : d.Linked base

/-- An unordered dispatcher accounts for its processors in flight and for the
polled batches that it has still to take up. -/
def FlightInv (base : List Broker.Request) (incoming : List Batch) (d : UnorderedDispatcher) :
    Prop :=
  Tracked base (flightOf d) (fun p => recordsOf p incoming) d.ledger d

/-! ## Changes of any dispatcher -/

section Changes

variable {base : List Broker.Request} {flying : Partition → List ProcessorId}
  {waiting : Partition → List Record} {l : Ledger} {incoming : List Batch}
  {d d' : UnorderedDispatcher}

theorem held_flightOf (d : UnorderedDispatcher) (p : Partition) (ids : List ProcessorId)
    (h : d.held.processors.find? p = some ids) : flightOf d p = ids := by
  rw [flightOf, h, Option.getD_some]

theorem Tracked.quiet (h : Tracked base flying waiting l d) (hq : Dispatcher.Quiet d d') :
    Tracked base flying waiting l d' := by
  obtain ⟨es, hj, hes⟩ := hq.journal
  refine ⟨?_, ?_, ?_, h.linked.quiet hq⟩
  · rw [hq.workers, hj]
    exact h.tallies.append_quiet hes
  · rw [hq.held]
    exact h.flights
  · simp only [flightOf, hq.held, hq.workers]
    exact h.unstopped

theorem Tracked.work (h : Tracked base flying waiting l d) (steps : List Nat) :
    Tracked base flying waiting l (d.work steps) := by
  refine ⟨?_, h.flights, fun p id hid => ?_, h.linked.work steps⟩
  · exact Dispatcher.work_induction (P := fun w journal => TalliesInv w journal l flying waiting) d
      steps (fun _ _ i h => h.step i) h.tallies
  · exact (h.unstopped p id hid).later (d.work_later steps)

theorem Tracked.await (h : Tracked base flying waiting l d) (m : Meanwhile) (point : Point)
    (timeout : Duration) (isOver : Workers → Bool) :
    Tracked base flying waiting l (d.await m point timeout isOver) :=
  Dispatcher.await_keeps Tracked.quiet (fun steps h => h.work steps) h m point timeout isOver

theorem FlightInv.quiet (h : FlightInv base incoming d) (hq : Dispatcher.Quiet d d') :
    FlightInv base incoming d' := by
  have hsame : flightOf d' = flightOf d := by
    funext p
    rw [flightOf, hq.held, flightOf]
  unfold FlightInv
  rw [hsame, hq.ledger]
  exact Tracked.quiet h hq

theorem FlightInv.work (h : FlightInv base incoming d) (steps : List Nat) :
    FlightInv base incoming (d.work steps) :=
  Tracked.work h steps

theorem FlightInv.await (h : FlightInv base incoming d) (m : Meanwhile) (point : Point)
    (timeout : Duration) (isOver : Workers → Bool) :
    FlightInv base incoming (d.await m point timeout isOver) :=
  Dispatcher.await_keeps FlightInv.quiet (fun steps h => h.work steps) h m point timeout isOver

theorem FlightInv.commit (h : FlightInv base incoming d) (forced : Bool) :
    FlightInv base incoming (d.commit forced) := by
  rcases d.commit_cases forced with heq | ⟨accepted, e, he, hw, hh, hl, hj, hb⟩
  · rw [heq]
    exact h
  · have hsame : flightOf (d.commit forced) = flightOf d := by
      funext p
      rw [flightOf, hh, flightOf]
    refine ⟨?_, held_flightOf _, ?_, h.linked.request he hb hj⟩
    · rw [hsame, hw, hl, hj]
      exact h.tallies.request he (h.tallies.toJournalInv.commit he)
    · rw [hsame, hw]
      exact h.unstopped

/-- An offset is recorded that is settled. -/
theorem FlightInv.record (h : FlightInv base incoming d) {p : Partition} {next : Int}
    (hn : Settled (period p d.journal) next) : FlightInv base incoming (d.record p next) := by
  have hrecord : FlightInv base incoming { d with ledger := d.ledger.record p next } :=
    ⟨{ h.tallies with toJournalInv := h.tallies.toJournalInv.record hn }, h.flights, h.unstopped,
      h.linked⟩
  refine hrecord.quiet (.tell _ fun e he => ?_)
  obtain ⟨e, -, rfl⟩ := List.mem_map.mp he
  rfl

end Changes

/-! ## Settling -/

section Settle

variable {base : List Broker.Request} {d : UnorderedDispatcher}

theorem FlightInv.awaitAll (h : FlightInv base [] d) (m : Meanwhile) (deadline : Instant)
    (ids : List ProcessorId) :
    FlightInv base [] (awaitAll m deadline d ids).1 ∧
      Dispatcher.Worked d (awaitAll m deadline d ids).1 ∧
      ((awaitAll m deadline d ids).2 = true →
        ∀ id ∈ ids, (awaitAll m deadline d ids).1.workers.isDone id = true) := by
  induction ids generalizing d with
  | nil => exact ⟨h, .refl d, fun _ => nofun⟩
  | cons id ids ih =>
    have hwait := h.await m (.wait id) (Duration.between d.now deadline) (·.isDone id)
    have hworked := d.worked_await m (.wait id) (Duration.between d.now deadline) (·.isDone id)
    unfold UnorderedDispatcher.awaitAll
    dsimp only [Dispatcher.awaitProcessor]
    split
    · exact ⟨h, .refl d, fun hfalse => absurd hfalse Bool.false_ne_true⟩
    · split
      · next hdone =>
        obtain ⟨hflightInv, hlater, hall⟩ := ih hwait
        refine ⟨hflightInv, hworked.trans hlater, fun htrue i hi => ?_⟩
        rcases List.mem_cons.mp hi with rfl | hi
        · exact hlater.later.isDone hdone
        · exact hall htrue i hi
      · exact ⟨hwait, hworked, fun hfalse => absurd hfalse Bool.false_ne_true⟩

/-- All work in flight has finished. -/
def Landed (d : UnorderedDispatcher) : Prop :=
  ∀ p, ∀ id ∈ flightOf d p, ∀ q, d.workers.processor? id = some q → q.stage = .finished

/-- Work that is done has finished, for none of it was asked to stop. -/
theorem FlightInv.landed (h : FlightInv base [] d)
    (hd : ∀ p, ∀ id ∈ flightOf d p, d.workers.isDone id = true) : Landed d := by
  intro p id hid q hq
  have hdone := hd p id hid
  rw [Workers.isDone_of_processor? hq] at hdone
  exact (h.tallies.wellFormed id q hq).finished hdone (h.unstopped p id hid q hq)

/-- Processors in flight have an entry in what is held. -/
theorem mem_entries_flightOf {p : Partition} {id : ProcessorId} (hid : id ∈ flightOf d p) :
    (p, flightOf d p) ∈ d.held.processors.entries := by
  rw [Table.mem_entries]
  unfold flightOf at hid ⊢
  cases hfind : d.held.processors.find? p with
  | none =>
    rw [hfind] at hid
    exact absurd hid List.not_mem_nil
  | some ids => rfl

/-- Every processor in flight is listed. -/
theorem mem_ids {p : Partition} {id : ProcessorId} (h : id ∈ flightOf d p) : id ∈ d.held.ids :=
  List.mem_flatten.mpr
    ⟨flightOf d p, List.mem_map.mpr ⟨(p, flightOf d p), mem_entries_flightOf h, rfl⟩, h⟩

theorem workers_settleOne (d : UnorderedDispatcher) (e : Partition × List ProcessorId) :
    (settleOne d e).workers = d.workers := by
  unfold settleOne
  split <;> rfl

theorem held_settleOne (d : UnorderedDispatcher) (e : Partition × List ProcessorId) :
    (settleOne d e).held = d.held := by
  unfold settleOne
  split <;> rfl

theorem Landed.settleOne (h : Landed d) (e : Partition × List ProcessorId) :
    Landed (settleOne d e) := by
  intro p id hid q hq
  rw [flightOf, held_settleOne] at hid
  rw [workers_settleOne] at hq
  exact h p id hid q hq

theorem FlightInv.settleOne (h : FlightInv base [] d) (hl : Landed d)
    {e : Partition × List ProcessorId}
    (he : d.held.processors.find? e.1 = some e.2) : FlightInv base [] (settleOne d e) := by
  have hflight := held_flightOf d e.1 e.2 he
  unfold UnorderedDispatcher.settleOne
  split
  · next offset hc =>
    rw [← hflight] at hc
    exact h.record ((h.tallies.tally e.1).settled h.tallies.wellFormed (hl e.1) hc)
  · exact h

theorem FlightInv.settleAll (h : FlightInv base [] d) (hl : Landed d)
    (es : List (Partition × List ProcessorId))
    (hes : ∀ e ∈ es, d.held.processors.find? e.1 = some e.2) :
    FlightInv base [] (es.foldl UnorderedDispatcher.settleOne d) ∧
      Landed (es.foldl UnorderedDispatcher.settleOne d) := by
  induction es generalizing d with
  | nil => exact ⟨h, hl⟩
  | cons e es ih =>
    refine ih (h.settleOne hl (hes e List.mem_cons_self)) (hl.settleOne e) fun e' he' => ?_
    rw [held_settleOne]
    exact hes e' (List.mem_cons_of_mem e he')

/-- Work that has finished may be forgotten. -/
theorem FlightInv.forget (h : FlightInv base [] d) (hl : Landed d) :
    FlightInv base [] (d.hold {}) := by
  refine ⟨⟨h.tallies.toJournalInv, fun p => ?_⟩, held_flightOf _, nofun, h.linked⟩
  exact (h.tallies.tally p).land (hl p)

/-- The wait for the work in flight ends too soon, or with all of it finished.
In the latter case its offsets are recorded and it is forgotten. -/
theorem FlightInv.settle_cases (h : FlightInv base [] d) (m : Meanwhile) :
    ∃ d', FlightInv base [] d' ∧ Dispatcher.Worked d d' ∧
      (settle d m = (d', false) ∨ Landed d' ∧ settle d m =
        ((d'.held.processors.entries.foldl UnorderedDispatcher.settleOne d').hold {}, true)) := by
  have hwait := h.awaitAll m (Duration.after d.now d.settings.pollTimeout)
    (UnorderedDispatcher.pending d)
  unfold UnorderedDispatcher.settle
  split
  · next d' heq =>
    rw [heq] at hwait
    obtain ⟨hflightInv, hworked, hall⟩ := hwait
    refine ⟨d', hflightInv, hworked, Or.inr ⟨hflightInv.landed fun p id hid => ?_, rfl⟩⟩
    rw [flightOf, hworked.held] at hid
    by_cases hdone : d.workers.isDone id = true
    · exact hworked.later.isDone hdone
    · refine hall rfl id (List.mem_filter.mpr ⟨mem_ids hid, ?_⟩)
      simpa using hdone
  · next d' heq =>
    rw [heq] at hwait
    exact ⟨d', hwait.1, hwait.2.1, Or.inl rfl⟩

theorem FlightInv.settle (h : FlightInv base [] d) (m : Meanwhile) :
    FlightInv base [] (settle d m).1 := by
  obtain ⟨d', hflightInv, -, heq | ⟨hlanded, heq⟩⟩ := h.settle_cases m
  · rw [heq]
    exact hflightInv
  · rw [heq]
    obtain ⟨hsettled, hlanded⟩ := hflightInv.settleAll hlanded d'.held.processors.entries
      fun e he => Table.mem_entries.mp he
    exact hsettled.forget hlanded

end Settle

/-! ## Polled batches -/

section Receive

variable {base : List Broker.Request} {incoming : List Batch} {d : UnorderedDispatcher}

/-- A poll returns batches. -/
theorem FlightInv.polled (h : FlightInv base [] d) (batches : List Batch) :
    FlightInv base batches (d.tell [.polled batches]) :=
  ⟨h.tallies.poll batches, h.flights, h.unstopped, h.linked⟩

/-- What starting processors for some batches of a partition does. -/
structure Launched (p : Partition) (batches : List Batch) (d d' : UnorderedDispatcher) :
    Prop where
  adds : d.workers.Adds d'.workers batches
  ledger : d'.ledger = d.ledger
  broker : d'.broker = d.broker
  flight : ∀ q, flightOf d' q = flightOf d q ++
    if q = p then (List.range batches.length).map (d.workers.nextId + ·) else []
  journal : ∃ es, d'.journal = es ++ d.journal ∧ ∀ e ∈ es, e.isQuiet = true

theorem launched_startSingle (p : Partition) (d : UnorderedDispatcher) (single : Batch) :
    Launched p [single] d (startSingle p d single) := by
  refine ⟨rfl, rfl, rfl, fun q => ?_, _, rfl, fun e he => ?_⟩
  · unfold flightOf
    simp only [startSingle, Dispatcher.hold, Table.find?_insert]
    split
    · next heq =>
      subst heq
      rfl
    · exact (List.append_nil _).symm
  · rw [List.mem_singleton.mp he]
    rfl

theorem launched_foldl (p : Partition) (d : UnorderedDispatcher) (singles : List Batch) :
    Launched p singles d (singles.foldl (startSingle p) d) := by
  induction singles generalizing d with
  | nil =>
    refine ⟨by simp [Workers.Adds], rfl, rfl, fun q => ?_, [], rfl, by simp⟩
    split <;> simp
  | cons single singles ih =>
    have hfirst := launched_startSingle p d single
    have hrest := ih (startSingle p d single)
    have hnext : (startSingle p d single).workers.nextId = d.workers.nextId + 1 := by
      simp [startSingle, Dispatcher.hold, Dispatcher.submit, Dispatcher.withWorkers,
        Dispatcher.tell, Workers.submit, Workers.create, Workers.nextId]
    rw [List.foldl_cons]
    refine ⟨?_, hrest.ledger.trans hfirst.ledger, hrest.broker.trans hfirst.broker, fun q => ?_,
      ?_⟩
    · rw [Workers.Adds, hrest.adds, hfirst.adds, List.map_cons, List.append_assoc]
      rfl
    · rw [hrest.flight, hfirst.flight, hnext, List.append_assoc]
      congr 1
      split
      · simp only [← List.range'_eq_map_range, List.length_cons, List.length_nil]
        rfl
      · rfl
    · obtain ⟨es₁, hj₁, hq₁⟩ := hfirst.journal
      obtain ⟨es₂, hj₂, hq₂⟩ := hrest.journal
      refine ⟨es₂ ++ es₁, by rw [hj₂, hj₁, List.append_assoc], fun e he => ?_⟩
      rcases List.mem_append.mp he with he | he
      · exact hq₂ e he
      · exact hq₁ e he

/-- A batch with records is announced, and then each of them gets
a processor. -/
theorem launched_receive (d : UnorderedDispatcher) {batch : Batch} (h : ¬ batch.isEmpty = true) :
    Launched batch.partition batch.singles ((d.noteTopic batch).tell
      [.startedSingles ((List.range batch.size).map (d.workers.nextId + ·)) batch])
      (receive d batch) := by
  unfold UnorderedDispatcher.receive
  rw [if_neg h]
  exact launched_foldl batch.partition _ batch.singles

theorem Launched.flight_singles {batch : Batch} {d₀ d' : UnorderedDispatcher}
    (h : Launched batch.partition batch.singles d₀ d') (p : Partition) :
    flightOf d' p = flightOf d₀ p ++ if p = batch.partition then
      (List.range batch.size).map (d₀.workers.nextId + ·) else [] := by
  have hlength : batch.singles.length = batch.size := List.length_map _
  have hsame := h.flight p
  rwa [hlength] at hsame

theorem FlightInv.receive {batch : Batch} (h : FlightInv base (batch :: incoming) d) :
    FlightInv base incoming (receive d batch) := by
  by_cases hempty : batch.isEmpty = true
  · have hsame : (fun p => recordsOf p (batch :: incoming)) = fun p => recordsOf p incoming :=
      funext (recordsOf_cons_of_isEmpty hempty incoming)
    unfold UnorderedDispatcher.receive
    rw [if_pos hempty]
    exact ⟨hsame ▸ h.tallies, h.flights, h.unstopped, h.linked⟩
  · have hlaunched := launched_receive d hempty
    generalize UnorderedDispatcher.receive d batch = d' at hlaunched ⊢
    have hadds : d.workers.Adds d'.workers batch.singles := hlaunched.adds
    have hflight := hlaunched.flight_singles
    obtain ⟨es, hj, hes⟩ := hlaunched.journal
    refine ⟨?_, held_flightOf d', fun p id hid => ?_, ?_⟩
    · rw [hlaunched.ledger, hj]
      exact (h.tallies.launch hadds (fun p => recordsOf_cons p batch incoming)
        hflight).append_quiet hes
    · rw [hflight] at hid
      rcases List.mem_append.mp hid with hold | hnew
      · exact (h.unstopped p id hold).add hadds
      · split at hnew
        · obtain ⟨i, -, rfl⟩ := List.mem_map.mp hnew
          exact (Workers.unstopped_of_nextId_le (Nat.le_add_right _ i)).add hadds
        · exact absurd hnew List.not_mem_nil
    · have htold : Dispatcher.Linked base ((d.noteTopic batch).tell
          [.startedSingles ((List.range batch.size).map (d.workers.nextId + ·)) batch]) :=
        h.linked
      refine htold.append (by rw [hlaunched.broker]) hj fun e he => ?_
      exact Event.request?_of_isQuiet (hes e he)

theorem FlightInv.receiveAll {batches : List Batch} (h : FlightInv base batches d) :
    FlightInv base [] (batches.foldl UnorderedDispatcher.receive d) := by
  induction batches generalizing d with
  | nil => exact h
  | cons batch batches ih => exact ih h.receive

theorem FlightInv.takeUp {batches : List Batch} (h : FlightInv base [] d) :
    FlightInv base [] (takeUp d batches).1 := by
  have hreceived := (h.polled batches).receiveAll
  refine FlightInv.commit (FlightInv.quiet ?_ (.report _ rfl)) false
  exact hreceived.quiet (.tellOne _ rfl)

end Receive

/-! ## Calls -/

section Calls

variable {P : UnorderedDispatcher → Prop} {d : UnorderedDispatcher}

theorem cycle_keeps (hk : Dispatcher.Kept P)
    (settle : ∀ {d : UnorderedDispatcher} (m : Meanwhile), P d → P (settle d m).1)
    (commit : ∀ {d : UnorderedDispatcher} (forced : Bool), P d → P (d.commit forced))
    (takeUp : ∀ {d : UnorderedDispatcher} (batches : List Batch), P d →
      P (takeUp d batches).1)
    (h : P d) (m : Meanwhile) (t : Duration) : P (cycle d m t).1 := by
  have hstart : P (d.elapse t).applyRequests :=
    hk.quiet (hk.quiet h (.elapse d t)) (.applyRequests _)
  have hsettle := settle m hstart
  unfold UnorderedDispatcher.cycle
  dsimp only
  split
  · next heq =>
    rw [heq] at hsettle
    exact commit false (hk.quiet hsettle (.report _ rfl))
  · next heq =>
    rw [heq] at hsettle
    have hpoll := hk.poll hsettle m
    split
    · next heq =>
      rw [heq] at hpoll
      exact hk.quiet hpoll (.tellOne _ rfl)
    · next heq =>
      rw [heq] at hpoll
      exact takeUp _ hpoll

theorem shutdown_keeps (hk : Dispatcher.Kept P)
    (settle : ∀ {d : UnorderedDispatcher} (m : Meanwhile), P d → P (settle d m).1)
    (commit : ∀ {d : UnorderedDispatcher} (forced : Bool), P d → P (d.commit forced))
    (h : P d) (m : Meanwhile) (t : Duration) : P (shutdown d m t) := by
  have hstart : P ((d.elapse t).tell [.shuttingDown .unordered]) :=
    hk.quiet (hk.quiet h (.elapse d t)) (.tellOne _ rfl)
  have hsettle := settle m hstart
  unfold UnorderedDispatcher.shutdown
  dsimp only
  refine hk.terminate (hk.close (commit true ?_) m) m
  split
  · exact hsettle
  · exact hk.quiet hsettle (.tellOne _ rfl)

end Calls
end RecordDispatch.UnorderedDispatcher
