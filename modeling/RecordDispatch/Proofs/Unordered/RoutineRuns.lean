import RecordDispatch.Proofs.RoutineRuns
import RecordDispatch.Proofs.Unordered.RecordedProgress

/-!
# Routine runs of an unordered dispatcher

In a run in which partitions are revoked by rebalances only, an unordered
dispatcher polls only after all work has finished and the ledger was told of it.
It pauses partitions only for the operator.  Both follow from an invariant that
every routine move keeps, `RoutineInv`, and are stated in
`polls_over_finished_work`.
-/

namespace RecordDispatch.UnorderedDispatcher

open Dispatch Dispatcher

variable {base : List Broker.Request} {d : UnorderedDispatcher}

/-! ## Flow control -/

/-- The gate is obeyed, and no entry of the monitor refers to a processor. -/
structure UnattachedInv (d : UnorderedDispatcher) : Prop extends GateInv d where
  unattached : ∀ p, d.monitor.attached? p = none

namespace UnattachedInv

theorem applyRequests (h : UnattachedInv d) : UnattachedInv d.applyRequests :=
  ⟨h.toGateInv.applyRequests, fun p =>
    ((d.gate.applied_apply d.now).attached p).trans (h.unattached p)⟩

theorem steadyKept : SteadyKept UnattachedInv where
  steady h hs := ⟨h.toGateInv.steady hs, hs.monitor ▸ h.unattached⟩
  deliver {d} m r h := by
    refine ⟨h.toGateInv.deliver m r, ?_⟩
    intro p
    rw [d.attached?_deliver m r p]
    cases r with
    | assign ps => exact h.unattached p
    | revoke ps =>
      dsimp only
      rw [h.unattached p, ite_self]

theorem cycle (h : UnattachedInv d) (m : Meanwhile) (t : Duration) :
    UnattachedInv (cycle d m t).1 :=
  cycle_keepsFlow steadyKept m t
    (applyRequests (steadyKept.still h (.elapse d t)))

/-- Outside the override there is no entry. -/
theorem unpaused (h : UnattachedInv d) (hoff : d.gate.globallyPaused = false) (p : Partition) :
    d.monitor.contains p = false := by
  have hbusy := Monitor.idle_eq_nil_iff.mp (h.busy hoff) p
  exact Bool.eq_false_iff.mpr fun hentry => hbusy hentry (h.unattached p)

end UnattachedInv

/-! ## Runs -/

/-- The dispatcher accounts for its work, the ledger was told of what has
finished, and partitions are paused for the operator only. -/
structure RoutineInv (base : List Broker.Request) (d : UnorderedDispatcher) : Prop where
  flightInv : FlightInv base [] d
  recordedInv : RecordedInv d
  unattachedInv : UnattachedInv d

theorem RoutineInv.move (h : RoutineInv base d) {move : Move} (hm : move.IsRoutine) :
    RoutineInv base (d.move move) := by
  have hflightInv := h.flightInv.move move
  cases move with
  | cycle m t => exact ⟨hflightInv, h.recordedInv.cycle h.flightInv m t, h.unattachedInv.cycle m t⟩
  | work task =>
    exact ⟨hflightInv, h.recordedInv.worked (.work d [task]),
      UnattachedInv.steadyKept.still h.unattachedInv (.work d [task])⟩
  | pauseAll | resumeAll =>
    exact ⟨hflightInv, h.recordedInv.quiet (.ofSilent rfl rfl rfl rfl rfl),
      ⟨⟨h.unattachedInv.obliging, h.unattachedInv.coherent, h.unattachedInv.busy⟩,
        h.unattachedInv.unattached⟩⟩
  | broker change =>
    exact ⟨hflightInv, h.recordedInv.quiet (.setBroker d (Broker.commitRequests_apply _ change)),
      ⟨h.unattachedInv.change hm, h.unattachedInv.unattached⟩⟩
  | revoke | shutdown => exact hm.elim

theorem RoutineInv.run (h : RoutineInv base d) {moves : List Move}
    (hm : ∀ move ∈ moves, move.IsRoutine) : RoutineInv base (d.run moves) :=
  run_induction h fun _ move hmem hd => hd.move (hm move hmem)

/-- The dispatcher as it is when a cycle polls the broker, if the cycle does. -/
def polling? (d : UnorderedDispatcher) (m : Meanwhile) (t : Duration) :
    Option UnorderedDispatcher :=
  match settle (d.elapse t).applyRequests m with
  | (d, true) => some d
  | (_, false) => none

/-- A cycle polls at this moment and at no other one. -/
theorem cycle_of_polling? (d : UnorderedDispatcher) (m : Meanwhile) (t : Duration) :
    cycle d m t =
      match polling? d m t with
      | some d₁ =>
        match d₁.poll m with
        | (d₂, .error e) => (d₂.pollFailed e, .backoff)
        | (d₂, .ok batches) => takeUp d₂ batches
      | none => ((reportStatus (settle (d.elapse t).applyRequests m).1).commit false, .busy) := by
  unfold cycle polling?
  dsimp only
  generalize settle (d.elapse t).applyRequests m = s
  obtain ⟨d₁, isSettled⟩ := s
  cases isSettled <;> rfl

/-- In a run in which partitions are revoked by rebalances only and the broker
refuses no call of the gate, two things hold.  Whenever the broker is polled,
every processor that was created has finished, and the ledger was told of the
highest offset of its partition.  At the end of every cycle the paused partitions
are those with an entry in the monitor, no entry refers to a processor, and
outside the operator's override there is none. -/
theorem polls_over_finished_work (settings : Settings) (size : Nat) (handler : Handler)
    (broker : Broker) (hb : broker.Obliging) (hp : broker.paused = []) (moves : List Move)
    (hm : ∀ move ∈ moves, move.IsRoutine) :
    let d : UnorderedDispatcher :=
      (initial settings (Workers.ofSize size handler) broker).run moves
    (∀ m t d₁, polling? d m t = some d₁ →
        (∀ q ∈ d₁.workers.processors, q.stage = .finished) ∧
          ∀ p c, d₁.workers.progress? p = some c → Passed d₁.ledger d₁.journal p c) ∧
      (∀ p, p ∈ d.broker.paused ↔ d.monitor.contains p = true) ∧
      (∀ p e, d.monitor.find? p = some e → e.processor = none) ∧
      (d.gate.globallyPaused = false → ∀ p, d.monitor.contains p = false) := by
  intro d
  have hstart : RoutineInv broker.commitRequests
      (initial settings (Workers.ofSize size handler) broker) :=
    ⟨flightInv_initial settings size handler broker,
      recordedInv_initial settings size handler broker,
      ⟨gateInv_initial settings _ hb hp, fun _ => rfl⟩⟩
  have h : RoutineInv broker.commitRequests d := hstart.run hm
  refine ⟨?_, h.unattachedInv.coherent, ?_, h.unattachedInv.unpaused⟩
  · intro m t d₁ hpoll
    have hquiet : Quiet d (d.elapse t).applyRequests :=
      (Quiet.elapse d t).trans (.applyRequests _)
    obtain ⟨hsettled, hidle⟩ := (h.recordedInv.quiet hquiet).settle (h.flightInv.quiet hquiet) m
    unfold polling? at hpoll
    split at hpoll
    · next heq =>
      rw [heq] at hsettled hidle
      obtain rfl := Option.some.inj hpoll
      exact hsettled.of_idle (hidle rfl)
    · cases hpoll
  · intro p e he
    have hnone := h.unattachedInv.unattached p
    rwa [Monitor.attached?, he, Option.bind_some] at hnone

namespace Sample

/-- The records at 5 and 6 are handled.  Then the operator asks for a global
pause, and it is taken up. -/
def overridden : List Move := moves.dropLast ++ [.pauseAll, .cycle .nothing 0]

/-- A dispatcher after these moves. -/
def routine : UnorderedDispatcher :=
  (initial {} (Workers.ofSize 2 { execute := fun _ => .done }) source).run overridden

end Sample

/-- In the sample the ledger was told of the highest offset when the broker is
polled next, and the partition is paused for the operator. -/
theorem polls_over_finished_work_sample :
    (∃ d, polling? Sample.routine .nothing 0 = some d ∧ d.workers.processors.length = 2 ∧
        (∀ q ∈ d.workers.processors, q.stage = .finished) ∧
        Passed d.ledger d.journal Sample.partition 7) ∧
      Sample.routine.monitor.contains Sample.partition = true ∧
      Sample.routine.gate.globallyPaused = true := by
  have hroutine : ∀ move ∈ Sample.overridden, move.IsRoutine := by
    simp [Sample.overridden, Sample.moves, Move.IsRoutine]
  have hobliging : Sample.source.Obliging := ⟨⟨rfl, nofun⟩, ⟨rfl, nofun⟩, ⟨rfl, nofun⟩⟩
  obtain ⟨hpoll, hpaused, -⟩ := polls_over_finished_work {} 2 { execute := fun _ => .done }
    Sample.source hobliging rfl Sample.overridden hroutine
  have hsome : (polling? Sample.routine .nothing 0).isSome = true := by decide +kernel
  obtain ⟨d, hd⟩ := Option.isSome_iff_exists.mp hsome
  have hfacts : (polling? Sample.routine .nothing 0).map (fun d =>
      (d.workers.processors.length, d.workers.progress? Sample.partition)) = some (2, some 7) := by
    decide +kernel
  rw [hd, Option.map_some, Option.some.injEq, Prod.mk.injEq] at hfacts
  obtain ⟨hfinished, hpassed⟩ := hpoll .nothing 0 d hd
  have hbroker : Sample.partition ∈ Sample.routine.broker.paused := by decide +kernel
  exact ⟨⟨d, hd, hfacts.1, hfinished, hpassed _ 7 hfacts.2⟩, (hpaused _).mp hbroker,
    by decide +kernel⟩

end RecordDispatch.UnorderedDispatcher
