import RecordDispatch.Proofs.Matches

/-!
# Unordered dispatchers that match

The processors in flight are held by their positions, so that those of two
dispatchers that match are the same.  Whether they are done, whether they have
finished and how far they have come is read from outlines.
-/

namespace RecordDispatch.UnorderedDispatcher

open Dispatch Dispatcher

variable {d d' : UnorderedDispatcher} {m m' : Meanwhile}

/-! ## What is read -/

theorem matches_processors (h : d.Matches d') : d.held.processors = d'.held.processors :=
  h.same (·.held.processors)

theorem matches_hold (h : d.Matches d') (held : InFlight) : Matches (d.hold held) (d'.hold held) :=
  h.hold rfl

theorem highest?_outline (w : Workers) (ids : List ProcessorId) :
    highest? w.outline ids = highest? w ids := by
  have hsame : w.outline.committable? = w.committable? := funext w.committable?_outline
  rw [highest?, hsame, highest?]

theorem isFinished_outline (w : Workers) (id : ProcessorId) :
    isFinished w.outline id = isFinished w id := by
  simp [isFinished, Function.comp_def, Processor.outline]

theorem matches_highest? (h : d.Matches d') (ids : List ProcessorId) :
    highest? d.workers ids = highest? d'.workers ids :=
  h.read (f := (highest? · ids)) fun w => highest?_outline w ids

/-! ## Draining -/

section Drain

theorem matches_stopProcessor (h : d.Matches d') (hm : m.Matches m') (id : ProcessorId) :
    Matches (stopProcessor m d id) (stopProcessor m' d' id) :=
  (h.stop id).pass hm _

theorem matches_stopOne (hm : m.Matches m')
    {s s' : UnorderedDispatcher × List (Partition × List ProcessorId)} (hs : MatchesWith s s')
    (p : Partition) : MatchesWith (stopOne m s p) (stopOne m' s' p) := by
  obtain ⟨d, d', draining, rfl, rfl, h⟩ := hs.exists_eq
  unfold stopOne
  dsimp only
  rw [matches_processors h]
  split
  · next ids _ =>
    refine ⟨?_, rfl⟩
    exact List.foldl_rel (matches_hold h _) fun id _ _ _ h => matches_stopProcessor h hm id
  · exact ⟨h, rfl⟩

theorem matches_awaitFinished (hm : m.Matches m') (deadline : Instant)
    {s s' : UnorderedDispatcher × Bool} (hs : MatchesWith s s') (id : ProcessorId) :
    MatchesWith (awaitFinished m deadline s id) (awaitFinished m' deadline s' id) := by
  obtain ⟨d, d', all, rfl, rfl, h⟩ := hs.exists_eq
  have hwait := (h.awaitProcessor hm id (Duration.between d'.now deadline)).pass hm (.answered id)
  have hfinished := hwait.read (f := (isFinished · id)) fun w => isFinished_outline w id
  unfold awaitFinished
  dsimp only
  rw [h.now, hfinished]
  exact ⟨hwait, rfl⟩

theorem matches_drainOne (hm : m.Matches m') (deadline : Instant)
    {s s' : UnorderedDispatcher × Offsets} (hs : MatchesWith s s')
    (e : Partition × List ProcessorId) :
    MatchesWith (drainOne m deadline s e) (drainOne m' deadline s' e) := by
  obtain ⟨d, d', staged, rfl, rfl, h⟩ := hs.exists_eq
  have hwait : MatchesWith (e.2.foldl (awaitFinished m deadline) (d, true))
      (e.2.foldl (awaitFinished m' deadline) (d', true)) :=
    List.foldl_rel ⟨h, rfl⟩ fun id _ _ _ h => matches_awaitFinished hm deadline h id
  obtain ⟨d₁, d₁', finished, heq, heq', hwait⟩ := hwait.exists_eq
  unfold drainOne
  dsimp only
  rw [heq, heq']
  dsimp only
  have hdone : d₁.workers.isDone = d₁'.workers.isDone := funext hwait.isDone
  rw [matches_highest? hwait, hdone]
  split
  · exact ⟨hwait.tell _ _, rfl⟩
  · split <;> exact ⟨hwait.tell _ _, rfl⟩

theorem matches_drain (h : d.Matches d') (hm : m.Matches m') (ps : List Partition) :
    MatchesWith (drain d m ps) (drain d' m' ps) := by
  have hstop : MatchesWith (ps.foldl (stopOne m) (d, [])) (ps.foldl (stopOne m') (d', [])) :=
    List.foldl_rel ⟨h, rfl⟩ fun p _ _ _ h => matches_stopOne hm h p
  obtain ⟨d, d', draining, heq, heq', hstop⟩ := hstop.exists_eq
  unfold drain
  rw [heq, heq']
  dsimp only
  have hdeadline : Duration.after d.now d.settings.revokeDrainTimeout =
      Duration.after d'.now d'.settings.revokeDrainTimeout := by
    rw [hstop.now, hstop.settings]
  rw [hstop.ledger, hdeadline]
  have hdrain : MatchesWith
      (draining.foldl (drainOne m (Duration.after d'.now d'.settings.revokeDrainTimeout))
        ({ d with ledger := d'.ledger.forget ps }, d'.ledger.pendingOf ps))
      (draining.foldl (drainOne m' (Duration.after d'.now d'.settings.revokeDrainTimeout))
        ({ d' with ledger := d'.ledger.forget ps }, d'.ledger.pendingOf ps)) :=
    List.foldl_rel ⟨hstop.setLedger _, rfl⟩ fun e _ _ _ h => matches_drainOne hm _ h e
  obtain ⟨hdrain, hstaged⟩ := hdrain
  refine ⟨?_, hstaged⟩
  dsimp only
  rw [hdrain.monitor]
  exact hdrain.setMonitor _

instance : Held.Blind InFlight where
  drain ps h hm := matches_drain h hm ps

end Drain

/-! ## Settling -/

section Settle

theorem matches_awaitAll (h : d.Matches d') (hm : m.Matches m') (deadline : Instant)
    (ids : List ProcessorId) :
    MatchesWith (awaitAll m deadline d ids) (awaitAll m' deadline d' ids) := by
  induction ids generalizing d d' with
  | nil => exact ⟨h, rfl⟩
  | cons id ids ih =>
    have hwait := h.awaitProcessor hm id (Duration.between d'.now deadline)
    unfold awaitAll
    dsimp only
    rw [h.now]
    split
    · exact ⟨h, rfl⟩
    · rw [hwait.isDone id]
      split
      · exact ih hwait
      · exact ⟨hwait, rfl⟩

theorem matches_settleOne (h : d.Matches d') (e : Partition × List ProcessorId) :
    Matches (settleOne d e) (settleOne d' e) := by
  unfold settleOne
  rw [matches_highest? h]
  split
  · exact h.record e.1 _
  · exact h

theorem matches_settle (h : d.Matches d') (hm : m.Matches m') :
    MatchesWith (settle d m) (settle d' m') := by
  have hpending : UnorderedDispatcher.pending d = UnorderedDispatcher.pending d' := by
    have hdone : d.workers.isDone = d'.workers.isDone := funext h.isDone
    unfold UnorderedDispatcher.pending InFlight.ids
    rw [hdone, matches_processors h]
  have hwait := matches_awaitAll h hm (Duration.after d'.now d'.settings.pollTimeout)
    (UnorderedDispatcher.pending d')
  obtain ⟨d₁, d₁', all, heq, heq', hwait⟩ := hwait.exists_eq
  unfold settle
  rw [h.now, h.settings, hpending, heq, heq']
  cases all with
  | false => exact ⟨hwait, rfl⟩
  | true =>
    dsimp only
    rw [matches_processors hwait]
    exact ⟨matches_hold (List.foldl_rel hwait fun e _ _ _ h => matches_settleOne h e) {}, rfl⟩

end Settle

/-! ## The cycle -/

section Cycle

theorem matches_startSingle (h : d.Matches d') (p : Partition) {single single' : Batch}
    (hb : single.outline = single'.outline) :
    Matches (startSingle p d single) (startSingle p d' single') := by
  have hid : d.workers.nextId = d'.workers.nextId := h.read Workers.nextId_outline
  have hsubmit := h.submit hb
  unfold startSingle
  dsimp only
  rw [hid, matches_processors hsubmit]
  exact matches_hold hsubmit _

theorem matches_receive {batch batch' : Batch} (h : d.Matches d')
    (hb : batch.outline = batch'.outline) : Matches (receive d batch) (receive d' batch') := by
  have hsingles : batch.singles.map Batch.outline = batch'.singles.map Batch.outline := by
    rw [← Batch.outline_singles, hb, Batch.outline_singles]
  have hstart := (h.noteTopic hb).tell
    [.startedSingles ((List.range batch.size).map (d.workers.nextId + ·)) batch]
    [.startedSingles ((List.range batch'.size).map (d'.workers.nextId + ·)) batch']
  unfold receive
  dsimp only
  rw [Batch.isEmpty_of_outline hb, Batch.partition_of_outline hb]
  split
  · exact h
  · exact foldl_outline (fun h hb => matches_startSingle h batch'.partition hb) hsingles hstart

theorem matches_reportStatus (h : d.Matches d') : Matches (reportStatus d) (reportStatus d') :=
  h.report _ _

theorem matches_takeUp (h : d.Matches d') {batches batches' : List Batch}
    (hb : batches.map Batch.outline = batches'.map Batch.outline) :
    MatchesWith (takeUp d batches) (takeUp d' batches') := by
  have hreceived := foldl_outline matches_receive hb (h.tell [.polled batches] [.polled batches'])
  unfold takeUp
  dsimp only
  rw [recordCount_of_outline hb]
  generalize batches.foldl receive (d.tell [.polled batches]) = d₁ at hreceived ⊢
  generalize batches'.foldl receive (d'.tell [.polled batches']) = d₁' at hreceived ⊢
  have htold := hreceived.tell [.active d₁.held.count] [.active d₁'.held.count]
  rw [htold.ledger]
  exact ⟨(matches_reportStatus htold).commit false, rfl⟩

theorem matches_cycle (h : d.Matches d') (hm : m.Matches m') (t : Duration) :
    MatchesWith (cycle d m t) (cycle d' m' t) := by
  have hsettle := matches_settle (h.elapse t).applyRequests hm
  obtain ⟨d, d', settled, heq, heq', hsettle⟩ := hsettle.exists_eq
  unfold cycle
  dsimp only
  rw [heq, heq']
  cases settled with
  | false => exact ⟨(matches_reportStatus hsettle).commit false, rfl⟩
  | true =>
    dsimp only
    obtain ⟨d₁, d₁', hpoll, ⟨e, heq, heq'⟩ | ⟨batches, batches', heq, heq', hb⟩⟩ :=
      hsettle.poll_cases hm
    · rw [heq, heq']
      exact ⟨hpoll.tell _ _, rfl⟩
    · rw [heq, heq']
      exact matches_takeUp hpoll hb

theorem matches_shutdown (h : d.Matches d') (hm : m.Matches m') (t : Duration) :
    Matches (shutdown d m t) (shutdown d' m' t) := by
  have hsettle := matches_settle
    ((h.elapse t).tell [.shuttingDown .unordered] [.shuttingDown .unordered]) hm
  obtain ⟨d, d', settled, heq, heq', hsettle⟩ := hsettle.exists_eq
  unfold shutdown
  dsimp only
  rw [heq, heq']
  dsimp only
  refine ((Matches.commit ?_ true).close hm).terminate hm
  split
  · exact hsettle
  · exact hsettle.tell _ _

end Cycle
end RecordDispatch.UnorderedDispatcher
