import RecordDispatch.Proofs.Matches

/-!
# Ordered dispatchers that match

A drain, a cycle and a shutdown of an ordered dispatcher do not look at the
contents of records.  What they look at is read from outlines: which partitions
are busy or have deferred records, which processors are done, and how far they
have come.
-/

namespace RecordDispatch.OrderedDispatcher

open Dispatch Dispatcher

variable {d d' : OrderedDispatcher} {m m' : Meanwhile}

/-! ## Lanes -/

/-- Of deferred records the outlines matter only. -/
theorem outline_lanes {active active' : Table ProcessorId} {deferred deferred' : Table Batch}
    (ha : active = active') (hd : deferred.map Batch.outline = deferred'.map Batch.outline) :
    Outlined.outline (⟨active, deferred⟩ : Lanes) = Outlined.outline ⟨active', deferred'⟩ := by
  change (⟨active, deferred.map Batch.outline⟩ : Lanes) = ⟨active', deferred'.map Batch.outline⟩
  rw [ha, hd]

theorem matches_active (h : d.Matches d') : d.held.active = d'.held.active :=
  h.same (·.held.active)

theorem matches_deferred (h : d.Matches d') :
    d.held.deferred.map Batch.outline = d'.held.deferred.map Batch.outline :=
  h.same (·.held.deferred)

/-- Both dispatchers have deferred records of a partition, or none has. -/
theorem deferred_cases (h : d.Matches d') (p : Partition) :
    (d.held.deferred.find? p = none ∧ d'.held.deferred.find? p = none) ∨
      ∃ b b', d.held.deferred.find? p = some b ∧ d'.held.deferred.find? p = some b' ∧
        b.outline = b'.outline := by
  have hfind := congrArg (·.find? p) (matches_deferred h)
  rw [Table.find?_map, Table.find?_map] at hfind
  cases hd : d.held.deferred.find? p <;> cases hd' : d'.held.deferred.find? p <;>
    simp_all

theorem matches_hold_active (h : d.Matches d') (active : Table ProcessorId) :
    Matches (d.hold { d.held with active }) (d'.hold { d'.held with active }) :=
  h.hold (outline_lanes rfl (matches_deferred h))

theorem matches_erase_deferred (h : d.Matches d') (p : Partition) :
    Matches (d.hold { d.held with deferred := d.held.deferred.erase p })
      (d'.hold { d'.held with deferred := d'.held.deferred.erase p }) := by
  refine h.hold (outline_lanes (matches_active h) ?_)
  rw [Table.map_erase, matches_deferred h, Table.map_erase]

/-! ## Draining -/

section Drain

theorem matches_dropDeferred (h : d.Matches d') (p : Partition) :
    Matches (dropDeferred d p) (dropDeferred d' p) := by
  have herase := matches_erase_deferred h p
  unfold dropDeferred
  rcases deferred_cases h p with ⟨hd, hd'⟩ | ⟨b, b', hd, hd', -⟩
  · rw [hd, hd']
    exact h
  · rw [hd, hd']
    exact herase.tell _ _

theorem matches_stopActive (h : d.Matches d') (hm : m.Matches m') (p : Partition) :
    MatchesWith (stopActive d m p) (stopActive d' m' p) := by
  unfold stopActive
  rw [matches_active h]
  split
  · next id _ =>
    exact ⟨((matches_hold_active h _).stop id).pass hm _, rfl⟩
  · exact ⟨h, rfl⟩

theorem matches_stopAll (h : d.Matches d') (hm : m.Matches m') (ps : List Partition) :
    MatchesWith (stopAll d m ps) (stopAll d' m' ps) := by
  induction ps generalizing d d' with
  | nil => exact ⟨h, rfl⟩
  | cons p ps ih =>
    obtain ⟨hstop, hid⟩ := matches_stopActive (matches_dropDeferred h p) hm p
    obtain ⟨hrest, hids⟩ := ih hstop
    unfold stopAll
    refine ⟨hrest, ?_⟩
    dsimp only
    rw [hid, hids]

theorem matches_drainOne (hm : m.Matches m') {s s' : OrderedDispatcher × Offsets}
    (hs : MatchesWith s s') (e : Partition × ProcessorId) :
    MatchesWith (drainOne m s e) (drainOne m' s' e) := by
  obtain ⟨d, d', staged, rfl, rfl, h⟩ := hs.exists_eq
  have hwait := h.awaitProcessor hm e.2 d'.settings.revokeDrainTimeout
  unfold drainOne
  dsimp only
  rw [h.settings]
  generalize d.awaitProcessor m e.2 d'.settings.revokeDrainTimeout = d at hwait ⊢
  generalize d'.awaitProcessor m' e.2 _ = d' at hwait ⊢
  have hoffset := hwait.read (f := fun w =>
    ((w.processor? e.2).map Processor.awaited).getD Processor.nothingProcessed) fun w => by
      simp [Function.comp_def]
  rw [hoffset, hwait.isDone e.2]
  have hanswer := (hwait.tell [.waited e.1 (d'.workers.isDone e.2)]
    [.waited e.1 (d'.workers.isDone e.2)]).pass hm (.answered e.2)
  rw [hanswer.isDone e.2]
  split
  · exact ⟨hanswer.tell _ _, rfl⟩
  · split <;> exact ⟨hanswer.tell _ _, rfl⟩

theorem matches_drain (h : d.Matches d') (hm : m.Matches m') (ps : List Partition) :
    MatchesWith (drain d m ps) (drain d' m' ps) := by
  obtain ⟨d, d', draining, heq, heq', hstop⟩ := (matches_stopAll h hm ps).exists_eq
  unfold drain
  rw [heq, heq']
  dsimp only
  rw [hstop.ledger]
  have hdrain : MatchesWith
      (draining.foldl (drainOne m)
        ({ d with ledger := d'.ledger.forget ps }, d'.ledger.pendingOf ps))
      (draining.foldl (drainOne m')
        ({ d' with ledger := d'.ledger.forget ps }, d'.ledger.pendingOf ps)) :=
    List.foldl_rel ⟨hstop.setLedger _, rfl⟩ fun e _ _ _ h => matches_drainOne hm h e
  obtain ⟨hdrain, hstaged⟩ := hdrain
  refine ⟨?_, hstaged⟩
  dsimp only
  rw [hdrain.monitor]
  exact hdrain.setMonitor _

instance : Held.Blind Lanes where
  drain ps h hm := matches_drain h hm ps

end Drain

/-! ## Polled batches -/

section Receive

variable {batch batch' : Batch}

theorem matches_defer (h : d.Matches d') (hb : batch.outline = batch'.outline) :
    Matches (defer d batch) (defer d' batch') := by
  have hp : batch.partition = batch'.partition := Batch.partition_of_outline hb
  have hlater {later later' : Batch} (hl : later.outline = later'.outline) :
      Matches (d.hold { d.held with
        deferred := d.held.deferred.insert batch'.partition later })
      (d'.hold { d'.held with
        deferred := d'.held.deferred.insert batch'.partition later' }) := by
    refine h.hold (outline_lanes (matches_active h) ?_)
    rw [Table.map_insert, Table.map_insert, matches_deferred h, hl]
  unfold defer
  dsimp only
  rw [hp]
  rcases deferred_cases h batch'.partition with ⟨hd, hd'⟩ | ⟨b, b', hd, hd', hearlier⟩
  · rw [hd, hd']
    exact (hlater hb).tell _ _
  · rw [hd, hd']
    refine (hlater ?_).tell _ _
    rw [Batch.outline_append, hearlier, hb, Batch.outline_append]

theorem matches_start (h : d.Matches d') (hb : batch.outline = batch'.outline) :
    Matches (start d batch) (start d' batch') := by
  have hp : batch.partition = batch'.partition := Batch.partition_of_outline hb
  have hid : d.workers.nextId = d'.workers.nextId := h.read Workers.nextId_outline
  unfold start
  dsimp only
  rw [hp, hid]
  have hsubmit := (h.tell [.started d'.workers.nextId batch]
    [.started d'.workers.nextId batch']).submit hb
  generalize (d.tell [.started d'.workers.nextId batch]).submit batch = d₁ at hsubmit ⊢
  generalize (d'.tell [.started d'.workers.nextId batch']).submit batch' = d₁' at hsubmit ⊢
  rw [matches_active hsubmit]
  have hhold := matches_hold_active hsubmit
    (d₁'.held.active.insert batch'.partition d'.workers.nextId)
  rw [hhold.now]
  exact hhold.withGate (f := (·.pause _ batch'.partition d'.workers.nextId)) fun g =>
    g.pause_outline _ _ _

theorem matches_receive (h : d.Matches d') (hb : batch.outline = batch'.outline) :
    Matches (receive d batch) (receive d' batch') := by
  have hp : batch.partition = batch'.partition := Batch.partition_of_outline hb
  have hempty : batch.isEmpty = batch'.isEmpty := Batch.isEmpty_of_outline hb
  have hnote := h.noteTopic hb
  unfold receive
  dsimp only
  rw [hempty, matches_active hnote, hp]
  split
  · exact h
  · split
    · exact matches_defer hnote hb
    · exact matches_start hnote hb

end Receive

/-! ## The cycle -/

section Cycle

theorem matches_harvestOne (hm : m.Matches m') {s s' : OrderedDispatcher × List Partition}
    (hs : MatchesWith s s') (e : Partition × ProcessorId) :
    MatchesWith (harvestOne m s e) (harvestOne m' s' e) := by
  obtain ⟨d, d', done, rfl, rfl, h⟩ := hs.exists_eq
  have hcompletion := h.pass hm (.completion e.2)
  have hprogress := hcompletion.pass hm (.progress e.2)
  unfold harvestOne
  dsimp only
  rw [hcompletion.isDone e.2, hprogress.committable? e.2]
  refine ⟨?_, rfl⟩
  dsimp only
  split
  · exact hprogress.record e.1 _
  · exact hprogress

theorem matches_harvest (h : d.Matches d') (hm : m.Matches m') :
    MatchesWith (harvest d m) (harvest d' m') := by
  unfold harvest
  rw [matches_active h]
  exact List.foldl_rel ⟨h, rfl⟩ fun e _ _ _ h => matches_harvestOne hm h e

theorem matches_retireOne {s s' : OrderedDispatcher × List Partition} (hs : MatchesWith s s')
    (p : Partition) : MatchesWith (retireOne s p) (retireOne s' p) := by
  obtain ⟨d, d', idle, rfl, rfl, h⟩ := hs.exists_eq
  have hretired := matches_hold_active h (d'.held.active.erase p)
  unfold retireOne
  dsimp only
  rw [matches_active h]
  rcases deferred_cases hretired p with ⟨hd, hd'⟩ | ⟨b, b', hd, hd', hb⟩
  · rw [hd, hd']
    exact ⟨hretired, rfl⟩
  · rw [hd, hd']
    exact ⟨matches_start (matches_erase_deferred hretired p) hb, rfl⟩

theorem matches_retire (h : d.Matches d') (done : List Partition) :
    Matches (retire d done) (retire d' done) := by
  have hretired : MatchesWith (done.foldl retireOne (d, [])) (done.foldl retireOne (d', [])) :=
    List.foldl_rel ⟨h, rfl⟩ fun p _ _ _ h => matches_retireOne h p
  obtain ⟨d, d', idle, heq, heq', hretired⟩ := hretired.exists_eq
  unfold retire
  rw [heq, heq']
  exact hretired.withGate (f := (·.resume idle)) fun g => g.resume_outline idle

theorem matches_takeUp (h : d.Matches d') (hm : m.Matches m') {batches batches' : List Batch}
    (hb : batches.map Batch.outline = batches'.map Batch.outline) :
    MatchesWith (takeUp d m batches) (takeUp d' m' batches') := by
  have hcount : Event.recordCount batches = Event.recordCount batches' :=
    recordCount_of_outline hb
  have hreceived := foldl_outline matches_receive hb (h.tell [.polled batches] [.polled batches'])
  unfold takeUp
  dsimp only
  rw [hcount]
  generalize batches.foldl receive (d.tell [.polled batches]) = d₁ at hreceived ⊢
  generalize batches'.foldl receive (d'.tell [.polled batches']) = d₁' at hreceived ⊢
  obtain ⟨hharvest, hdone⟩ := matches_harvest hreceived hm
  rw [matches_active hreceived, hreceived.ledger, hdone]
  refine ⟨?_, rfl⟩
  refine Matches.commit (Matches.report ?_ _ _) false
  exact (matches_retire hharvest _).tell _ _

theorem matches_cycle (h : d.Matches d') (hm : m.Matches m') (t : Duration) :
    MatchesWith (cycle d m t) (cycle d' m' t) := by
  unfold cycle
  dsimp only
  obtain ⟨d₁, d₁', hpoll, ⟨e, heq, heq'⟩ | ⟨batches, batches', heq, heq', hb⟩⟩ :=
    (h.elapse t).applyRequests.poll_cases hm
  · rw [heq, heq']
    exact ⟨hpoll.tell _ _, rfl⟩
  · rw [heq, heq']
    exact matches_takeUp hpoll hm hb

theorem matches_shutdown (h : d.Matches d') (hm : m.Matches m') (t : Duration) :
    Matches (shutdown d m t) (shutdown d' m' t) := by
  obtain ⟨hharvest, -⟩ :=
    matches_harvest ((h.elapse t).tell [.shuttingDown .ordered] [.shuttingDown .ordered]) hm
  exact ((hharvest.commit true).close hm).terminate hm

end Cycle
end RecordDispatch.OrderedDispatcher
