import RecordDispatch.Proofs.DrainSteps
import RecordDispatch.Proofs.Requests

/-!
# What leaves flow control alone

Flow control is the business of the gate and of rebalances.  Whatever else
a dispatcher does leaves the paused partitions, the monitor and the operator's
override as they are: such a change is steady.  Most steady changes also create
no processor and leave the ones that are done alone; then the change is still.

* A drain is still but for the entries of the drained partitions
  (`Held.LeavesFlow`), and so is a revocation (`still_revoke`).
* `deliverAll_keeps` and `poll_keeps` carry what every rebalance keeps through
  a poll.
* `FlowKept` is what a statement about flow control has to survive.  For both
  ways of dispatching it then survives what follows in a cycle once the
  operator's requests are taken up (`Cycled.KeepsFlow`).
-/

namespace RecordDispatch

open Dispatch

namespace Dispatch.Event

/-- Whether the event is of the gate or of partitions that are assigned. -/
def isFlow : Event → Bool
  | .gate _ => true
  | .assigned _ => true
  | _ => false

theorem isFlow_workers {es : List Workers.Event} {e : Event}
    (he : e ∈ (es.map Event.workers).reverse) : e.isFlow = false := by
  obtain ⟨e, -, rfl⟩ := List.mem_map.mp (List.mem_reverse.mp he)
  rfl

/-- Whether the event says that processors start. -/
def isStart : Event → Bool
  | .started _ _ => true
  | .startedSingles _ _ => true
  | _ => false

/-- The processor that does something. -/
def acting? : Event → Option ProcessorId
  | .workers e => e.acting?
  | _ => none

/-- Whether the event says nothing of flow control, of workers and of processors
that start. -/
def isAside : Event → Bool
  | .workers _ => false
  | e => !e.isFlow && !e.isStart

theorem isAside_of_isOfDrain {e : Event} (h : e.isOfDrain = true) : e.isAside = true := by
  cases e with
  | dropped | waited | drained => rfl
  | _ => exact absurd h Bool.false_ne_true

theorem isFlow_of_isAside {e : Event} (h : e.isAside = true) : e.isFlow = false := by
  cases e with
  | gate | assigned => exact absurd h nofun
  | _ => rfl

theorem isStart_of_isAside {e : Event} (h : e.isAside = true) : e.isStart = false := by
  cases e with
  | started | startedSingles => exact absurd h nofun
  | _ => rfl

theorem acting?_of_isAside {e : Event} (h : e.isAside = true) : e.acting? = none := by
  cases e with
  | workers => exact absurd h nofun
  | _ => rfl

end Dispatch.Event

/-- A commit asks the broker for nothing else. -/
theorem Commit.run_broker (s : Schedule) (now : Instant) (forced : Bool) (l : Ledger)
    (b : Broker) :
    (run s now forced l b).broker.paused = b.paused ∧
      b.Served (run s now forced l b).broker ∧
      (run s now forced l b).broker.resumptions = b.resumptions := by
  have hpaused := b.paused_commit (s.modeOf forced) l.pending
  have hserved := b.served_commit (s.modeOf forced) l.pending
  have hasked := b.resumptions_commit (s.modeOf forced) l.pending
  unfold run
  split
  · dsimp only
    split <;>
    · next heq =>
      rw [heq] at hpaused hserved hasked
      exact ⟨hpaused, hserved, hasked⟩
  · exact ⟨rfl, .refl b, rfl⟩

namespace Dispatcher

variable {ω : Type}

/-- A change that leaves flow control alone. -/
structure Steady (d d' : Dispatcher ω) : Prop where
  monitor : d'.monitor = d.monitor
  control : d'.gate.control = d.gate.control
  paused : d'.broker.paused = d.broker.paused
  served : d.broker.Served d'.broker
  resumptions : d'.broker.resumptions = d.broker.resumptions
  journal : ∃ es, d'.journal = es ++ d.journal ∧ ∀ e ∈ es, e.isFlow = false

/-- A steady change that creates no processor, and after which those that were
done still are and have done nothing. -/
structure Still (d d' : Dispatcher ω) : Prop extends Steady d d' where
  batches : ∀ id, (d'.workers.processor? id).map (·.batch) =
    (d.workers.processor? id).map (·.batch)
  done : ∀ id, d.workers.Done id → d'.workers.Done id
  acts : ∃ es, d'.journal = es ++ d.journal ∧
    ∀ e ∈ es, e.isStart = false ∧ ∀ id, e.acting? = some id → ¬ d.workers.Done id

theorem Steady.globallyPaused {d d' : Dispatcher ω} (h : Steady d d') :
    d'.gate.globallyPaused = d.gate.globallyPaused :=
  congrArg Gate.Control.globallyPaused h.control

theorem Steady.suffix {d d' : Dispatcher ω} (h : Steady d d') : d.journal <:+ d'.journal := by
  obtain ⟨es, hj, -⟩ := h.journal
  exact ⟨es, hj.symm⟩

theorem Steady.refl (d : Dispatcher ω) : Steady d d :=
  ⟨rfl, rfl, rfl, .refl _, rfl, [], rfl, by simp⟩

theorem Steady.trans {d₁ d₂ d₃ : Dispatcher ω} (h₁ : Steady d₁ d₂) (h₂ : Steady d₂ d₃) :
    Steady d₁ d₃ := by
  obtain ⟨es₁, hj₁, hes₁⟩ := h₁.journal
  obtain ⟨es₂, hj₂, hes₂⟩ := h₂.journal
  refine ⟨h₂.monitor.trans h₁.monitor, h₂.control.trans h₁.control,
    h₂.paused.trans h₁.paused, h₁.served.trans h₂.served,
    h₂.resumptions.trans h₁.resumptions, es₂ ++ es₁,
    by rw [hj₂, hj₁, List.append_assoc], ?_⟩
  intro e he
  rcases List.mem_append.mp he with he | he
  · exact hes₂ e he
  · exact hes₁ e he

theorem Steady.tellOne (d : Dispatcher ω) {e : Dispatch.Event} (h : e.isFlow = false) :
    Steady d (d.tell [e]) :=
  ⟨rfl, rfl, rfl, .refl _, rfl, [e], rfl, fun e' he' => by rw [List.mem_singleton.mp he', h]⟩

/-- A change of what the gate does not know. -/
theorem Steady.ofSilent {d d' : Dispatcher ω} (hg : d'.gate = d.gate)
    (hj : d'.journal = d.journal) : Steady d d' := by
  have hb : d'.broker = d.broker := congrArg Gate.broker hg
  refine ⟨congrArg Gate.monitor hg, congrArg Gate.control hg, by rw [hb], ?_, by rw [hb], [], hj,
    by simp⟩
  rw [hb]
  exact .refl _

theorem Steady.submit (d : Dispatcher ω) (batch : Batch) : Steady d (d.submit batch) :=
  ⟨rfl, rfl, rfl, .refl _, rfl, _, rfl, fun _ he => Event.isFlow_workers he⟩

namespace Still

theorem trans {d₁ d₂ d₃ : Dispatcher ω} (h₁ : Still d₁ d₂) (h₂ : Still d₂ d₃) :
    Still d₁ d₃ := by
  obtain ⟨es₁, hj₁, hes₁⟩ := h₁.acts
  obtain ⟨es₂, hj₂, hes₂⟩ := h₂.acts
  refine ⟨h₁.toSteady.trans h₂.toSteady, fun id => (h₂.batches id).trans (h₁.batches id),
    fun id hd => h₂.done id (h₁.done id hd), es₂ ++ es₁,
    by rw [hj₂, hj₁, List.append_assoc], fun e he => ?_⟩
  rcases List.mem_append.mp he with he | he
  · exact ⟨(hes₂ e he).1, fun id hid hd => (hes₂ e he).2 id hid (h₁.done id hd)⟩
  · exact hes₁ e he

/-- A change that leaves workers and flow control alone, with what is told
aside. -/
theorem ofWorkers {d d' : Dispatcher ω} (es : List Dispatch.Event)
    (hw : d'.workers = d.workers) (hm : d'.monitor = d.monitor)
    (hc : d'.gate.control = d.gate.control)
    (hp : d'.broker.paused = d.broker.paused) (hs : d.broker.Served d'.broker)
    (hr : d'.broker.resumptions = d.broker.resumptions)
    (hj : d'.journal = es ++ d.journal) (hes : ∀ e ∈ es, e.isAside = true) : Still d d' := by
  refine ⟨⟨hm, hc, hp, hs, hr, es, hj, fun e he => Event.isFlow_of_isAside (hes e he)⟩,
    fun id => by rw [hw], fun id hd => hw ▸ hd, es, hj, fun e he => ?_⟩
  refine ⟨Event.isStart_of_isAside (hes e he), fun id hid => ?_⟩
  rw [Event.acting?_of_isAside (hes e he)] at hid
  exact absurd hid nofun

/-- A change of what neither the gate nor a worker knows. -/
theorem ofSilent {d d' : Dispatcher ω} (hg : d'.gate = d.gate) (hw : d'.workers = d.workers)
    (hj : d'.journal = d.journal) : Still d d' := by
  have hb : d'.broker = d.broker := congrArg Gate.broker hg
  refine ofWorkers [] hw (congrArg Gate.monitor hg) (congrArg Gate.control hg) (by rw [hb])
    ?_ (by rw [hb]) hj (List.forall_mem_nil _)
  rw [hb]
  exact .refl _

theorem refl (d : Dispatcher ω) : Still d d :=
  ofSilent rfl rfl rfl

variable (d : Dispatcher ω)

theorem elapse (t : Duration) : Still d (d.elapse t) :=
  ofSilent rfl rfl rfl

theorem hold (held : ω) : Still d (d.hold held) :=
  ofSilent rfl rfl rfl

theorem noteTopic (batch : Batch) : Still d (d.noteTopic batch) :=
  ofSilent rfl rfl rfl

theorem setLedger (ledger : Ledger) : Still d { d with ledger } :=
  ofSilent rfl rfl rfl

theorem tell {es : List Dispatch.Event} (h : ∀ e ∈ es, e.isAside = true) : Still d (d.tell es) :=
  ofWorkers _ rfl rfl rfl rfl (.refl _) rfl rfl fun e he => h e (List.mem_reverse.mp he)

theorem tellOne {e : Dispatch.Event} (h : e.isAside = true) : Still d (d.tell [e]) :=
  tell d fun e' he' => by rw [List.mem_singleton.mp he', h]

theorem setBroker {b : Broker} (hp : b.paused = d.broker.paused) (hs : d.broker.Served b)
    (hr : b.resumptions = d.broker.resumptions) : Still d (d.setBroker b) :=
  ofWorkers [] rfl rfl rfl hp hs hr rfl (List.forall_mem_nil _)

theorem work (steps : List Nat) : Still d (d.work steps) := by
  have hlater := d.work_later steps
  refine ⟨⟨rfl, rfl, rfl, .refl _, rfl, _, rfl, fun e he => Event.isFlow_workers he⟩,
    hlater.batches, fun id hd => hd.later hlater, _, rfl, fun e he => ?_⟩
  obtain ⟨e, hmem, rfl⟩ := List.mem_map.mp (List.mem_reverse.mp he)
  exact ⟨rfl, fun id hid => d.workers.run_acts steps hmem hid⟩

theorem pass (m : Meanwhile) (point : Point) : Still d (d.pass m point) :=
  work d _

theorem await (m : Meanwhile) (point : Point) (timeout : Duration) (isOver : Workers → Bool) :
    Still d (d.await m point timeout isOver) := by
  obtain ⟨steps, t, heq⟩ := d.await_cases m point timeout isOver
  rw [heq]
  exact (work d steps).trans (elapse _ t)

theorem stop (id : ProcessorId) : Still d { d with workers := d.workers.stop id } := by
  refine ⟨.ofSilent rfl rfl, fun i => ?_, fun i hd => hd.stop id, [], rfl,
    List.forall_mem_nil _⟩
  dsimp only
  rw [Workers.processor?_stop]
  split
  · rw [Option.map_map]
    rfl
  · rfl

theorem record (p : Partition) (next : Int) : Still d (d.record p next) := by
  refine (setLedger d (d.ledger.record p next)).trans (tell _ fun e he => ?_)
  obtain ⟨e, -, rfl⟩ := List.mem_map.mp he
  rfl

theorem commit (forced : Bool) : Still d (d.commit forced) := by
  obtain ⟨hpaused, hserved, hasked⟩ :=
    Commit.run_broker d.schedule d.now forced d.ledger d.broker
  unfold Dispatcher.commit
  generalize Commit.run d.schedule d.now forced d.ledger d.broker = s at hpaused hserved hasked ⊢
  have hrun : Still d { d with schedule := s.schedule, ledger := s.ledger } :=
    ofSilent rfl rfl rfl
  refine (hrun.trans (setBroker _ hpaused hserved hasked)).trans (tell _ fun e he => ?_)
  obtain ⟨e, -, rfl⟩ := List.mem_map.mp he
  rfl

theorem commitRevoked (offsets : Offsets) : Still d (d.commitRevoked offsets) := by
  have hpaused := d.broker.paused_commit .sync offsets
  have hserved := d.broker.served_commit .sync offsets
  have hasked := d.broker.resumptions_commit .sync offsets
  unfold Dispatcher.commitRevoked
  split
  · exact refl d
  · split <;>
    · next heq =>
      rw [heq] at hpaused hserved hasked
      exact (setBroker d hpaused hserved hasked).trans (tellOne _ rfl)

theorem report {shown : Dispatch.Event} (h : shown.isAside = true) : Still d (d.report shown) := by
  unfold Dispatcher.report
  split
  · have hlast : Still d { d with lastReport := d.now } := ofSilent rfl rfl rfl
    refine hlast.trans (tell _ fun e he => ?_)
    rcases List.mem_cons.mp he with rfl | he
    · exact h
    · rw [List.mem_singleton.mp he]
      rfl
  · exact refl d

end Still

/-- A change of the broker that neither pauses nor resumes and is no commit. -/
structure Spared (b b' : Broker) : Prop where
  paused : b'.paused = b.paused
  served : b.Served b'
  resumptions : b'.resumptions = b.resumptions
  commits : b'.commitRequests = b.commitRequests

theorem Spared.still {d : Dispatcher ω} {b : Broker} (h : Spared d.broker b) :
    Still d (d.setBroker b) :=
  .setBroker d h.paused h.served h.resumptions

/-! ## Revocations -/

theorem drainSteps_still : DrainSteps (Still (ω := ω)) where
  refl := Still.refl
  trans := Still.trans
  hold := Still.hold
  forget d _ := Still.setLedger d _
  stop := Still.stop
  work := Still.work
  elapse := Still.elapse
  tellOne d _ h := Still.tellOne d (Event.isAside_of_isOfDrain h)

end Dispatcher

namespace Dispatch

/-- Work of which a drain is still, but for the entries of the monitor that it
takes out. -/
class Held.LeavesFlow (ω : Type) [Held ω] : Prop where
  drain_cases : ∀ (d : Dispatcher ω) (m : Meanwhile) (ps : List Partition),
    ∃ d₁ : Dispatcher ω, Dispatcher.Still d d₁ ∧
      (Held.drain d m ps).1 = d₁.setMonitor (d₁.monitor.removeAll ps)

instance {ω : Type} [Held ω] [Held.DrainsInSteps ω] : Held.LeavesFlow ω where
  drain_cases := Held.DrainsInSteps.drain_rel Dispatcher.drainSteps_still

end Dispatch

namespace Dispatcher

variable {ω : Type} [Held ω]

/-- A drain takes the entries of its partitions out of the monitor. -/
theorem monitor_drain [Held.LeavesFlow ω] (d : Dispatcher ω) (m : Meanwhile)
    (ps : List Partition) : (Held.drain d m ps).1.monitor = d.monitor.removeAll ps := by
  obtain ⟨d₁, hstill, heq⟩ := Held.LeavesFlow.drain_cases d m ps
  rw [heq]
  exact congrArg (·.removeAll ps) hstill.monitor

/-- The ledger and the monitor have nothing of some partitions any more, and all
they had of the others. -/
structure Forgotten (ps : List Partition) (d d' : Dispatcher ω) : Prop where
  pending : ∀ p, d'.ledger.get? p = if p ∈ ps then none else d.ledger.get? p
  flushed : ∀ p, d'.ledger.flushed.find? p = if p ∈ ps then none else d.ledger.flushed.find? p
  monitor : ∀ p, d'.monitor.find? p = if p ∈ ps then none else d.monitor.find? p

theorem forgotten_drain [Held.LeavesFlow ω] {d : Dispatcher ω} {m : Meanwhile}
    {ps : List Partition} (h : (Held.drain d m ps).1.ledger = d.ledger.forget ps) :
    Forgotten ps d (Held.drain d m ps).1 := by
  refine ⟨fun p => ?_, fun p => ?_, fun p => ?_⟩
  · rw [h, Ledger.get?_forget]
  · rw [h, Ledger.flushed_forget]
  · rw [d.monitor_drain, Monitor.find?_removeAll]

theorem still_revoke [Held.LeavesFlow ω] (d : Dispatcher ω) (m : Meanwhile)
    (ps : List Partition) :
    ∃ d₁, Still d d₁ ∧ Still (d₁.setMonitor (d₁.monitor.removeAll ps)) (d.revoke m ps) := by
  unfold revoke
  split
  · next hnil =>
    rw [List.isEmpty_iff.mp hnil]
    exact ⟨d, .refl d, .refl d⟩
  · obtain ⟨d₁, hstill, hdrain⟩ := Held.LeavesFlow.drain_cases (d.tell [.revoking ps]) m ps
    generalize Held.drain (d.tell [.revoking ps]) m ps = s at hdrain ⊢
    obtain ⟨d', offsets⟩ := s
    dsimp only at hdrain ⊢
    refine ⟨d₁, (Still.tellOne d rfl).trans hstill, ?_⟩
    rw [← hdrain]
    exact (Still.commitRevoked d' offsets).trans (.tellOne _ rfl)

section Revoke

variable [Held.LeavesFlow ω] (d : Dispatcher ω) (m : Meanwhile) (ps : List Partition)

/-- The entries of the partitions are taken out of the monitor, and nothing else
of flow control changes. -/
theorem monitor_revoke : (d.revoke m ps).monitor = d.monitor.removeAll ps := by
  obtain ⟨d₁, hdrain, hrest⟩ := d.still_revoke m ps
  exact hrest.monitor.trans (congrArg (·.removeAll ps) hdrain.monitor)

theorem control_revoke : (d.revoke m ps).gate.control = d.gate.control := by
  obtain ⟨d₁, hdrain, hrest⟩ := d.still_revoke m ps
  exact hrest.control.trans hdrain.control

theorem paused_revoke : (d.revoke m ps).broker.paused = d.broker.paused := by
  obtain ⟨d₁, hdrain, hrest⟩ := d.still_revoke m ps
  exact hrest.paused.trans hdrain.paused

theorem served_revoke : d.broker.Served (d.revoke m ps).broker := by
  obtain ⟨d₁, hdrain, hrest⟩ := d.still_revoke m ps
  exact hdrain.served.trans hrest.served

theorem resumptions_revoke : (d.revoke m ps).broker.resumptions = d.broker.resumptions := by
  obtain ⟨d₁, hdrain, hrest⟩ := d.still_revoke m ps
  exact hrest.resumptions.trans hdrain.resumptions

end Revoke

theorem still_terminate (d : Dispatcher ω) (m : Meanwhile) : Still d (d.terminate m) := by
  have hwait : Still d (d.awaitWorkers m d.settings.shutdownTimeout) := .await d m _ _ _
  unfold terminate
  dsimp only
  split <;> exact hwait.trans (.tellOne _ rfl)

theorem held_terminate (d : Dispatcher ω) (m : Meanwhile) : (d.terminate m).held = d.held := by
  have hwait := (d.worked_await m .allWorkers d.settings.shutdownTimeout
    fun w => w.inFlight == 0).held
  unfold terminate
  dsimp only
  split <;> exact hwait

/-! ## Polls -/

theorem deliverAll_keeps {P : Dispatcher ω → Prop} {d : Dispatcher ω}
    (deliver : ∀ {d : Dispatcher ω} (m : Meanwhile) (r : Broker.Rebalance), P d →
      P (Dispatcher.deliver m d r))
    (setBroker : ∀ {d : Dispatcher ω} (b : Broker), Spared d.broker b → P d → P (d.setBroker b))
    (h : P d) (m : Meanwhile) : P (d.deliverAll m) := by
  unfold deliverAll
  have hstart : P (d.setBroker { d.broker with rebalances := [] }) :=
    setBroker _ ⟨rfl, .of_eq rfl rfl rfl id rfl rfl rfl, rfl, rfl⟩ h
  generalize d.setBroker { d.broker with rebalances := [] } = d' at hstart
  induction d.broker.rebalances generalizing d' with
  | nil => exact hstart
  | cons r rs ih => exact ih _ (deliver m r hstart)

theorem poll_keeps {P : Dispatcher ω → Prop} {d : Dispatcher ω}
    (deliver : ∀ {d : Dispatcher ω} (m : Meanwhile) (r : Broker.Rebalance), P d →
      P (Dispatcher.deliver m d r))
    (setBroker : ∀ {d : Dispatcher ω} (b : Broker), Spared d.broker b → P d → P (d.setBroker b))
    (h : P d) (m : Meanwhile) : P (d.poll m).1 := by
  unfold poll
  split
  · exact setBroker _ ⟨rfl, .of_eq rfl rfl rfl id rfl rfl rfl, rfl, rfl⟩ h
  · refine setBroker _ ⟨?_, ?_, ?_, ?_⟩ (deliverAll_keeps deliver setBroker h m)
    · exact Broker.paused_fetch _
    · exact Broker.served_fetch _
    · exact Broker.resumptions_fetch _
    · exact Broker.commitRequests_fetch _

/-- A poll asks the broker to resume nothing. -/
theorem resumptions_poll [Held.LeavesFlow ω] (d : Dispatcher ω) (m : Meanwhile) :
    (d.poll m).1.broker.resumptions = d.broker.resumptions := by
  refine poll_keeps (P := fun d' => d'.broker.resumptions = d.broker.resumptions)
    (fun m r h => ?_) (fun _ hb h => hb.resumptions.trans h) rfl m
  cases r with
  | revoke ps => exact (resumptions_revoke _ m ps).trans h
  | assign ps => exact h

/-- Leaving the group asks the broker to resume nothing. -/
theorem resumptions_close [Held.LeavesFlow ω] (d : Dispatcher ω) (m : Meanwhile) :
    (d.close m).broker.resumptions = d.broker.resumptions := by
  unfold close
  split
  · rfl
  · exact d.resumptions_revoke m _

/-! ## Statements about flow control -/

/-- A statement that survives steady changes and rebalances. -/
structure SteadyKept (P : Dispatcher ω → Prop) : Prop where
  steady : ∀ {d d' : Dispatcher ω}, P d → Steady d d' → P d'
  deliver : ∀ {d : Dispatcher ω} (m : Meanwhile) (r : Broker.Rebalance), P d →
    P (Dispatcher.deliver m d r)

namespace SteadyKept

variable {P : Dispatcher ω → Prop} (hk : SteadyKept P)
include hk

theorem still {d d' : Dispatcher ω} (h : P d) (hs : Still d d') : P d' :=
  hk.steady h hs.toSteady

theorem poll {d : Dispatcher ω} (h : P d) (m : Meanwhile) : P (d.poll m).1 :=
  poll_keeps hk.deliver (fun _ hb h => hk.still h hb.still) h m

end SteadyKept

/-- One that also survives what the gate does for processors, and that the group
is left. -/
structure FlowKept (P : Dispatcher ω → Prop) : Prop extends SteadyKept P where
  adjust : ∀ {d : Dispatcher ω} {r : Gate × List Gate.Event}, P d → d.gate.Adjusted r →
    P (d.withGate r)
  close : ∀ {d : Dispatcher ω} (m : Meanwhile), P d → P (d.close m)

end Dispatcher

namespace Dispatch

/-- Work whose dispatcher keeps, in a cycle and when it is shut down, what
flow control keeps. -/
class Cycled.KeepsFlow (ω : Type) [Cycled ω] : Prop where
  cycle : ∀ {P : Dispatcher ω → Prop}, Dispatcher.FlowKept P → ∀ {d : Dispatcher ω} (m : Meanwhile)
    (t : Duration), P (d.elapse t).applyRequests → P (Cycled.cycle d m t).1
  shutdown : ∀ {P : Dispatcher ω → Prop}, Dispatcher.FlowKept P → ∀ {d : Dispatcher ω}
    (m : Meanwhile) (t : Duration), P d → P (Cycled.shutdown d m t)

end Dispatch
end RecordDispatch
