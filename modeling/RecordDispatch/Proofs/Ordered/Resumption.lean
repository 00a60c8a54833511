import RecordDispatch.Proofs.Ordered.FlowInvariant

/-!
# What an ordered dispatcher asks the broker to resume

The gate resumes a partition whose entry of the monitor refers to no processor.
The entry of a busy partition refers to its processor, with one exception: if
the broker refuses to pause the partition when the processor starts, there is no
entry, and a later global pause makes one that knows of no processor
(`busy_is_resumed`).  In every run this is the only way in which the broker
comes to be asked to resume a busy partition (`resumed_busy_only_if_refused`).

`resumptionsOf` lists what the broker is asked to resume in a run, with the
dispatcher as it is when it asks.  The invariant is `BusyAttachedInv`.
-/

namespace RecordDispatch

open Dispatch Dispatcher

namespace Dispatch

/-- The broker refused to pause a partition when a processor started for it. -/
def PauseRefused (p : Partition) (id : ProcessorId) (journal : List Event) : Prop :=
  ∃ e n batch older, batch.partition = p ∧
    .gate (.pauseFailed p e) :: .gate (.pausing p) :: .workers (.submitted id n) ::
      .started id batch :: older <:+ journal

theorem PauseRefused.mono {p : Partition} {id : ProcessorId} {journal journal' : List Event}
    (h : PauseRefused p id journal) (hs : journal <:+ journal') : PauseRefused p id journal' := by
  obtain ⟨e, n, batch, older, hp, hold⟩ := h
  exact ⟨e, n, batch, older, hp, hold.trans hs⟩

end Dispatch

namespace OrderedDispatcher

/-! ## The invariant -/

/-- The entry of a busy partition refers to its processor, unless the broker
refused to pause the partition for it.  The partitions that are behind have no
processor. -/
structure BusyAttachedInv (behind : List Partition) (d : OrderedDispatcher) : Prop where
  attached : ∀ p id, d.held.active.find? p = some id →
    d.monitor.attached? p = some id ∨ PauseRefused p id d.journal
  retired : ∀ p ∈ behind, d.held.active.find? p = none

namespace BusyAttachedInv

variable {behind : List Partition} {d d' : OrderedDispatcher}

/-- No processor is new, and entries keep their processors. -/
theorem frame (h : BusyAttachedInv behind d) (ha : d'.held.active = d.held.active)
    (hm : ∀ p, d'.monitor.attached? p = d.monitor.attached? p) (hj : d.journal <:+ d'.journal) :
    BusyAttachedInv behind d' := by
  constructor
  · intro p id hid
    rw [ha] at hid
    rw [hm]
    exact (h.attached p id hid).imp_right (·.mono hj)
  · intro p hp
    rw [ha]
    exact h.retired p hp

theorem still (h : BusyAttachedInv behind d) (hs : Still d d')
    (ha : d'.held.active = d.held.active) :
    BusyAttachedInv behind d' :=
  h.frame ha (fun p => by rw [hs.monitor]) hs.suffix

theorem start {behind' : List Partition} (h : BusyAttachedInv behind d) (batch : Batch)
    (hbehind : ∀ p, p ∈ behind' ↔ p ∈ behind ∧ p ≠ batch.partition) :
    BusyAttachedInv behind' (start d batch) := by
  have hpause := d.gate.pausedFor_pause d.now batch.partition d.workers.nextId
  have htold := journal_start d batch
  have hj : d.journal <:+ (OrderedDispatcher.start d batch).journal := by
    rw [htold]
    exact (List.suffix_cons _ _).trans (List.suffix_append _ _)
  constructor
  · intro p id hid
    rw [active_start, Table.find?_insert] at hid
    split at hid
    · next heq =>
      obtain rfl := Option.some.inj hid
      subst heq
      rcases hpause.attached with hattached | ⟨e, he⟩
      · exact Or.inl hattached
      · rw [he] at htold
        refine Or.inr ⟨e, ((d.workers.create batch).submit d.workers.nextId).1.inFlight, batch,
          d.journal, rfl, ?_⟩
        rw [htold]
        exact List.suffix_refl _
    · next hne =>
      have hattached : (OrderedDispatcher.start d batch).monitor.attached? p =
          d.monitor.attached? p := hpause.others p hne
      rw [hattached]
      exact (h.attached p id hid).imp_right (·.mono hj)
  · intro p hp
    obtain ⟨hmem, hne⟩ := (hbehind p).mp hp
    rw [active_start, Table.find?_insert, if_neg hne]
    exact h.retired p hmem

theorem forget (h : BusyAttachedInv behind d) {p : Partition} {held : Lanes}
    (ha : ∀ q, held.active.find? q = if q = p then none else d.held.active.find? q) :
    BusyAttachedInv (behind ++ [p]) (d.hold held) := by
  constructor
  · intro q id hid
    simp only [hold, ha] at hid
    split at hid
    · cases hid
    · exact h.attached q id hid
  · intro q hq
    simp only [hold, ha]
    split
    · rfl
    · next hne =>
      rw [List.mem_append, List.mem_singleton] at hq
      exact h.retired q (hq.resolve_right hne)

/-- Only entries of partitions without a processor lose theirs. -/
theorem resume (h : BusyAttachedInv behind d) :
    BusyAttachedInv [] (d.withGate (d.gate.resume behind)) := by
  have hresume := d.gate.resumedFor_resume behind
  refine ⟨?_, List.forall_mem_nil _⟩
  intro p id hid
  have hkept : p ∉ behind := fun hp => Option.some_ne_none _ (hid.symm.trans (h.retired p hp))
  have hattached : (d.withGate (d.gate.resume behind)).monitor.attached? p =
      d.monitor.attached? p := (hresume.attached p).trans (if_neg hkept)
  rw [hattached]
  exact (h.attached p id hid).imp_right (·.mono (List.suffix_append _ _))

theorem laneSteps : LaneSteps BusyAttachedInv where
  still := BusyAttachedInv.still
  start batch h := h.start batch
  forget h := h.forget
  resume := BusyAttachedInv.resume

/-! ## Calls of the dispatcher -/

theorem applyRequests (h : BusyAttachedInv [] d) : BusyAttachedInv [] d.applyRequests :=
  h.frame rfl (d.gate.applied_apply d.now).attached (List.suffix_append _ _)

variable {base : List Broker.Request}

/-- Entries of partitions that are taken away are gone, and so are their
processors. -/
theorem revoke (h : BusyAttachedInv [] d) (m : Meanwhile) (ps : List Partition) :
    BusyAttachedInv [] (d.revoke m ps) := by
  obtain ⟨d₁, hdrain, hrest⟩ := d.still_revoke m ps
  refine ⟨?_, List.forall_mem_nil _⟩
  intro p id hid
  rw [(held_revoke d m ps p).1] at hid
  split at hid
  · cases hid
  · next hp =>
    have hattached : (d.revoke m ps).monitor.attached? p = d.monitor.attached? p := by
      rw [monitor_revoke, Monitor.attached?_removeAll, if_neg hp]
    rw [hattached]
    exact (h.attached p id hid).imp_right (·.mono (hdrain.suffix.trans hrest.suffix))

theorem setBroker (h : BusyAttachedInv [] d) (b : Broker) : BusyAttachedInv [] (d.setBroker b) :=
  ⟨h.attached, h.retired⟩

theorem deliver (h : BusyAttachedInv [] d) (m : Meanwhile) (r : Broker.Rebalance) :
    BusyAttachedInv [] (Dispatcher.deliver m d r) := by
  cases r with
  | revoke ps => exact (h.revoke m ps).setBroker _
  | assign ps => exact (h.setBroker _).frame rfl (fun _ => rfl) (List.suffix_cons _ _)

theorem close (h : BusyAttachedInv [] d) (m : Meanwhile) : BusyAttachedInv [] (d.close m) := by
  unfold Dispatcher.close
  split
  · exact h
  · exact (h.revoke m _).setBroker _

theorem shutdown (h : BusyAttachedInv [] d) (m : Meanwhile) (t : Duration) :
    BusyAttachedInv [] (shutdown d m t) := by
  have hbegin : BusyAttachedInv [] ((d.elapse t).tell [.shuttingDown .ordered]) :=
    h.still ((Still.elapse d t).trans (.tellOne _ rfl)) rfl
  have hharvested := hbegin.still (still_harvest _ m) (by rw [held_harvest])
  exact ((hharvested.still (.commit _ true) rfl).close m).still (still_terminate _ m)
    (congrArg Lanes.active (held_terminate _ m))

theorem polled (h : BusyAttachedInv [] d) (hs : LanesInv base [] d) (m : Meanwhile) (t : Duration) :
    LanesInv base [] ((d.elapse t).applyRequests.poll m).1 ∧
      BusyAttachedInv [] ((d.elapse t).applyRequests.poll m).1 :=
  hs.poll_keeps (fun m r _ h => h.deliver m r) (fun b _ h => h.setBroker b) m t
    (h.still (.elapse d t) rfl).applyRequests

theorem cycle (h : BusyAttachedInv [] d) (hs : LanesInv base [] d) (m : Meanwhile) (t : Duration) :
    BusyAttachedInv [] (cycle d m t).1 :=
  hs.cycle_keeps (fun m r _ h => h.deliver m r) (fun b _ h => h.setBroker b)
    (fun _ h => h.still (.tellOne _ rfl) rfl)
    (fun m batches hs h => laneSteps.takeUp h hs m batches) m t
    (h.still (.elapse d t) rfl).applyRequests

theorem move (h : BusyAttachedInv [] d) (hs : LanesInv base [] d) (move : Move) :
    BusyAttachedInv [] (d.move move) := by
  cases move with
  | cycle m t => exact h.cycle hs m t
  | revoke m t ps => exact (h.still (.elapse d t) rfl).revoke m ps
  | shutdown m t => exact h.shutdown m t
  | work task => exact h.still (.work d [task]) rfl
  | pauseAll | resumeAll => exact ⟨h.attached, h.retired⟩
  | broker change => exact h.setBroker _

end BusyAttachedInv

/-! ## What is asked in a run -/

section Requests

variable (d : OrderedDispatcher) (m : Meanwhile)

/-- What the broker is asked to resume when the operator's requests are taken
up, newest first, with the dispatcher as it is then. -/
def resumptionsAtStart (t : Duration) : List (List Partition × OrderedDispatcher) :=
  (d.broker.resumptionsSince (d.elapse t).applyRequests.broker).map (·, d)

/-- What the broker is asked to resume when processors are forgotten. -/
def resumptionsAtEnd (batches : List Batch) : List (List Partition × OrderedDispatcher) :=
  let (d, idle) := forgetDone d m batches
  (d.broker.resumptionsSince (d.withGate (d.gate.resume idle)).broker).map (·, d)

/-- What the broker is asked to resume in a move, newest first. -/
def resumptionsIn : Move → List (List Partition × OrderedDispatcher)
  | .cycle m t =>
    match (d.elapse t).applyRequests.poll m with
    | (_, .error _) => resumptionsAtStart d t
    | (d', .ok batches) => resumptionsAtEnd d' m batches ++ resumptionsAtStart d t
  | _ => []

theorem resumptions_applyRequests (t : Duration) :
    (d.elapse t).applyRequests.broker.resumptions =
      (resumptionsAtStart d t).map Prod.fst ++ d.broker.resumptions := by
  obtain ⟨new, hnew, -⟩ := d.gate.resumptions_apply (d.elapse t).now
  have happlied : (d.elapse t).applyRequests.broker.resumptions = new ++ d.broker.resumptions :=
    hnew
  rw [resumptionsAtStart, Broker.resumptionsSince_of_append happlied, happlied]
  simp [Function.comp_def]

theorem resumptions_forgetDone (batches : List Batch) :
    (forgetDone d m batches).1.broker.resumptions = d.broker.resumptions :=
  forgetDone_keeps (P := fun d' => d'.broker.resumptions = d.broker.resumptions) m
    (fun h hs => hs.resumptions.trans h)
    (fun _ h => (Gate.asks_pause _ _ _ _).resumptions_of_pause.trans h) rfl batches

theorem resumptions_takeUp (batches : List Batch) :
    (takeUp d m batches).1.broker.resumptions =
      (resumptionsAtEnd d m batches).map Prod.fst ++ d.broker.resumptions := by
  have hforgotten := resumptions_forgetDone d m batches
  have hrest := (still_takeUp d m batches).resumptions
  obtain ⟨new, hnew, -⟩ :=
    ((forgetDone d m batches).1.gate.asks_resume (forgetDone d m batches).2).resumptions
  unfold resumptionsAtEnd
  generalize forgetDone d m batches = s at hforgotten hrest hnew ⊢
  have hresumed : (s.1.withGate (s.1.gate.resume s.2)).broker.resumptions =
      new ++ s.1.broker.resumptions := hnew
  dsimp only
  rw [hrest, Broker.resumptionsSince_of_append hresumed, hresumed, hforgotten]
  simp [Function.comp_def]

theorem resumptions_cycle (t : Duration) :
    (cycle d m t).1.broker.resumptions =
      (resumptionsIn d (.cycle m t)).map Prod.fst ++ d.broker.resumptions := by
  have hpolled := ((d.elapse t).applyRequests.resumptions_poll m).trans
    (resumptions_applyRequests d t)
  unfold cycle resumptionsIn
  dsimp only
  generalize (d.elapse t).applyRequests.poll m = polled at hpolled ⊢
  obtain ⟨d', e | batches⟩ := polled
  · exact hpolled
  · dsimp only at hpolled ⊢
    rw [resumptions_takeUp, hpolled, List.map_append, List.append_assoc]

theorem resumptions_shutdown (t : Duration) :
    (shutdown d m t).broker.resumptions = d.broker.resumptions := by
  have hbegin : Still d ((d.elapse t).tell [.shuttingDown .ordered]) :=
    (Still.elapse d t).trans (.tellOne _ rfl)
  have hcommitted := (hbegin.trans (still_harvest _ m)).trans (.commit _ true)
  exact (still_terminate _ m).resumptions.trans
    ((resumptions_close _ m).trans hcommitted.resumptions)

/-- The requests to resume that a move adds to those that the broker got before
are the ones of the move. -/
theorem resumptions_move (move : Move) :
    (d.move move).broker.resumptions =
      (resumptionsIn d move).map Prod.fst ++ d.broker.resumptions := by
  cases move with
  | cycle m t => exact resumptions_cycle d m t
  | revoke m t ps => exact (d.elapse t).resumptions_revoke m ps
  | shutdown m t => exact resumptions_shutdown d m t
  | work | pauseAll | resumeAll => rfl
  | broker change => exact Broker.resumptions_of_eq (d.broker.requests_apply change)

end Requests

/-- What the broker is asked to resume in a run, newest first, with the
dispatcher as it is when it asks. -/
def resumptionsOf (d : OrderedDispatcher) : List Move → List (List Partition × OrderedDispatcher)
  | [] => []
  | move :: moves => resumptionsOf (d.move move) moves ++ resumptionsIn d move

theorem resumptions_run (d : OrderedDispatcher) (moves : List Move) :
    (d.run moves).broker.resumptions =
      (resumptionsOf d moves).map Prod.fst ++ d.broker.resumptions := by
  induction moves generalizing d with
  | nil => rfl
  | cons move moves ih =>
    rw [run_cons, ih, resumptions_move, resumptionsOf, List.map_append, List.append_assoc]

/-! ## Busy partitions -/

/-- Partitions are named of which no processor is active, but for those that the
broker refused to pause for it. -/
def SparesBusy (r : List Partition × OrderedDispatcher) : Prop :=
  ∀ p ∈ r.1, ∀ id, r.2.held.active.find? p = some id → PauseRefused p id r.2.journal

namespace BusyAttachedInv

variable {base : List Broker.Request} {d : OrderedDispatcher}

theorem sparesBusy_atStart (h : BusyAttachedInv [] d) (t : Duration) :
    ∀ r ∈ resumptionsAtStart d t, SparesBusy r := by
  obtain ⟨new, hnew, hidle⟩ := d.gate.resumptions_apply (d.elapse t).now
  have happlied : (d.elapse t).applyRequests.broker.resumptions = new ++ d.broker.resumptions :=
    hnew
  intro r hr p hp id hid
  rw [resumptionsAtStart, Broker.resumptionsSince_of_append happlied] at hr
  obtain ⟨ps, hps, rfl⟩ := List.mem_map.mp hr
  have hnone : d.monitor.attached? p = none := hidle ps hps p hp
  refine (h.attached p id hid).resolve_left ?_
  intro hattached
  exact Option.some_ne_none id (hattached.symm.trans hnone)

theorem sparesBusy_atEnd (h : BusyAttachedInv [] d) (hs : LanesInv base [] d) (m : Meanwhile)
    (batches : List Batch) : ∀ r ∈ resumptionsAtEnd d m batches, SparesBusy r := by
  have hforgotten := laneSteps.forgetDone h hs m batches
  obtain ⟨new, hnew, hnamed⟩ :=
    ((forgetDone d m batches).1.gate.asks_resume (forgetDone d m batches).2).resumptions
  unfold resumptionsAtEnd
  generalize forgetDone d m batches = s at hforgotten hnew hnamed ⊢
  have hresumed : (s.1.withGate (s.1.gate.resume s.2)).broker.resumptions =
      new ++ s.1.broker.resumptions := hnew
  intro r hr p hp id hid
  dsimp only at hr
  rw [Broker.resumptionsSince_of_append hresumed] at hr
  obtain ⟨ps, hps, rfl⟩ := List.mem_map.mp hr
  have hnone := hforgotten.retired p (hnamed ps hps p hp).1
  exact absurd (hid.symm.trans hnone) (Option.some_ne_none id)

theorem sparesBusy_move (h : BusyAttachedInv [] d) (hs : LanesInv base [] d) (move : Move) :
    ∀ r ∈ resumptionsIn d move, SparesBusy r := by
  cases move with
  | cycle m t =>
    obtain ⟨hlanesInv, hpolled⟩ := h.polled hs m t
    unfold resumptionsIn
    dsimp only
    generalize (d.elapse t).applyRequests.poll m = polled at hlanesInv hpolled ⊢
    obtain ⟨d', e | batches⟩ := polled
    · exact h.sparesBusy_atStart t
    · exact List.forall_mem_append.mpr
        ⟨hpolled.sparesBusy_atEnd hlanesInv m batches, h.sparesBusy_atStart t⟩
  | _ => exact List.forall_mem_nil _

theorem sparesBusy_run (h : BusyAttachedInv [] d) (hs : LanesInv base [] d) (moves : List Move) :
    ∀ r ∈ resumptionsOf d moves, SparesBusy r := by
  induction moves generalizing d with
  | nil => exact List.forall_mem_nil _
  | cons move moves ih =>
    exact List.forall_mem_append.mpr
      ⟨ih (h.move hs move) (hs.move move), h.sparesBusy_move hs move⟩

end BusyAttachedInv

/-- In every run the broker is asked to resume what `resumptionsOf` lists, and
whatever calls it refuses, it is asked to resume no partition with an active
processor, unless it refused to pause the partition when this very processor
started. -/
theorem resumed_busy_only_if_refused (settings : Settings) (size : Nat) (handler : Handler)
    (broker : Broker) (moves : List Move) :
    let d : OrderedDispatcher := initial settings (Workers.ofSize size handler) broker
    (d.run moves).broker.resumptions =
        (resumptionsOf d moves).map Prod.fst ++ broker.resumptions ∧
      ∀ ps d', (ps, d') ∈ resumptionsOf d moves → ∀ p ∈ ps, ∀ id,
        d'.held.active.find? p = some id → PauseRefused p id d'.journal := by
  intro d
  have hstart : BusyAttachedInv [] d :=
    ⟨fun _ id hid => absurd hid.symm (Option.some_ne_none id), List.forall_mem_nil _⟩
  refine ⟨resumptions_run d moves, ?_⟩
  intro ps d' hr
  exact hstart.sparesBusy_run (lanesInv_initial settings size handler broker) moves _ hr

namespace Sample

/-- The broker refuses to pause a partition when its processor starts.  A global
pause takes effect, and it is lifted while the processor still works. -/
def unpaused : List Move :=
  [.broker (.pauseOutage ⟨[true], false⟩), .broker (.push ⟨partition, [{ offset := 0 }]⟩),
    .cycle .nothing 0, .pauseAll, .cycle .nothing 0, .resumeAll, .cycle .nothing 0]

end Sample

/-- In the sample the broker is asked to resume a partition whose processor is
active. -/
theorem busy_is_resumed :
    let d : OrderedDispatcher :=
      initial {} (Workers.ofSize 1 { execute := fun _ => .done }) { assigned := [Sample.partition] }
    (resumptionsOf d Sample.unpaused).map (fun r => (r.1, r.2.held.active.entries)) =
      [([Sample.partition], [(Sample.partition, 0)])] := by
  decide +kernel

end OrderedDispatcher
end RecordDispatch
