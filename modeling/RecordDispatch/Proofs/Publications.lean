import RecordDispatch.Proofs.Ordered.Flow
import RecordDispatch.Proofs.Unordered.Flow

/-!
# Publications of the monitor

The monitor is published at the end of a cycle, if it is time, for the topics
that are known by then.  These are the topics of which a poll has returned
records (`KnownTopicsInv`).  Each way of dispatching first does all else that
there is to do in the cycle (`Unpublished`), and a publication is followed by
nothing but a commit; so a move is a `Turn`.

* `Unseen` is about changes that tell neither of polls nor of publications, and
  by which no topic becomes known.
* `LearnsTopics` is about a change by which the topics of batches become known.
-/

namespace RecordDispatch

open Dispatch

namespace Dispatch.Event

/-- Whether the monitor is published. -/
def isPublication : Event → Bool
  | .monitor _ => true
  | _ => false

/-- Whether batches were polled. -/
def isPoll : Event → Bool
  | .polled _ => true
  | _ => false

/-- Whether the event is neither a poll nor a publication. -/
def isUnseen (e : Event) : Bool :=
  !e.isPoll && !e.isPublication

theorem isUnseen_of_isOfDrain {e : Event} (h : e.isOfDrain = true) : e.isUnseen = true := by
  cases e with
  | dropped | waited | drained => rfl
  | _ => exact absurd h Bool.false_ne_true

theorem isUnseen_iff {e : Event} :
    e.isUnseen = true ↔ e.isPoll = false ∧ e.isPublication = false := by
  simp [isUnseen]

end Dispatch.Event

/-! ## Changes that are not seen -/

namespace Dispatcher

variable {ω : Type}

/-- A change that tells neither of polls nor of publications, and by which no
topic becomes known. -/
structure Unseen (d d' : Dispatcher ω) : Prop where
  topics : d'.topics = d.topics
  tells : Tells (fun e => e.isUnseen = true) d d'

namespace Unseen

theorem ofSilent {d d' : Dispatcher ω} (ht : d'.topics = d.topics)
    (hj : d'.journal = d.journal) : Unseen d d' :=
  ⟨ht, .ofSilent hj⟩

theorem refl (d : Dispatcher ω) : Unseen d d :=
  ofSilent rfl rfl

theorem trans {d₁ d₂ d₃ : Dispatcher ω} (h₁ : Unseen d₁ d₂) (h₂ : Unseen d₂ d₃) :
    Unseen d₁ d₃ :=
  ⟨h₂.topics.trans h₁.topics, h₁.tells.trans h₂.tells⟩

variable (d : Dispatcher ω)

theorem elapse (t : Duration) : Unseen d (d.elapse t) :=
  ofSilent rfl rfl

theorem hold (held : ω) : Unseen d (d.hold held) :=
  ofSilent rfl rfl

theorem setBroker (b : Broker) : Unseen d (d.setBroker b) :=
  ofSilent rfl rfl

theorem tell {es : List Event} (h : ∀ e ∈ es, e.isUnseen = true) : Unseen d (d.tell es) :=
  ⟨rfl, .tell d h⟩

theorem tellOne {e : Event} (h : e.isUnseen = true) : Unseen d (d.tell [e]) :=
  ⟨rfl, .tellOne d h⟩

/-- What a part of the dispatcher tells is not seen. -/
theorem tellMap {ε : Type} {es : List ε} {f : ε → Event} (h : ∀ e, (f e).isUnseen = true) :
    Unseen d (d.tell (es.map f)) := by
  refine tell d fun e he => ?_
  obtain ⟨e, -, rfl⟩ := List.mem_map.mp he
  exact h e

theorem withWorkers (r : Workers × List Workers.Event) : Unseen d (d.withWorkers r) :=
  (ofSilent rfl rfl : Unseen d { d with workers := r.1 }).trans (tellMap _ fun _ => rfl)

theorem withGate (r : Gate × List Gate.Event) : Unseen d (d.withGate r) :=
  (ofSilent rfl rfl : Unseen d { d with gate := r.1 }).trans (tellMap _ fun _ => rfl)

theorem await (m : Meanwhile) (point : Point) (timeout : Duration) (isOver : Workers → Bool) :
    Unseen d (d.await m point timeout isOver) := by
  obtain ⟨steps, t, heq⟩ := d.await_cases m point timeout isOver
  rw [heq]
  exact (withWorkers d _).trans (elapse _ t)

theorem record (p : Partition) (next : Int) : Unseen d (d.record p next) :=
  (ofSilent rfl rfl : Unseen d { d with ledger := d.ledger.record p next }).trans
    (tellMap _ fun _ => rfl)

theorem commit (forced : Bool) : Unseen d (d.commit forced) := by
  let s := Commit.run d.schedule d.now forced d.ledger d.broker
  have hrun : Unseen d { d with schedule := s.schedule, ledger := s.ledger } := ofSilent rfl rfl
  exact (hrun.trans (setBroker _ s.broker)).trans (tellMap _ fun _ => rfl)

theorem commitRevoked (offsets : Offsets) : Unseen d (d.commitRevoked offsets) := by
  unfold Dispatcher.commitRevoked
  split
  · exact refl d
  · split <;> exact (setBroker d _).trans (tellOne _ rfl)

end Unseen

theorem drainSteps_unseen : DrainSteps (Unseen (ω := ω)) where
  refl := .refl
  trans := .trans
  hold := .hold
  forget _ _ := .ofSilent rfl rfl
  stop _ _ := .ofSilent rfl rfl
  work d _ := .withWorkers d _
  elapse := .elapse
  tellOne d _ h := .tellOne d (Event.isUnseen_of_isOfDrain h)

section Calls

variable [Held ω] [Held.DrainsInSteps ω] (d : Dispatcher ω) (m : Meanwhile)

theorem unseen_revoke (ps : List Partition) : Unseen d (d.revoke m ps) := by
  unfold revoke
  split
  · exact .refl d
  · obtain ⟨d₁, hsteps, hdrain⟩ :=
      Held.DrainsInSteps.drain_rel drainSteps_unseen (d.tell [.revoking ps]) m ps
    generalize Held.drain (d.tell [.revoking ps]) m ps = s at hdrain ⊢
    obtain ⟨d', offsets⟩ := s
    dsimp only at hdrain ⊢
    have hdrained : Unseen d d' := by
      rw [hdrain]
      exact ((Unseen.tellOne d rfl).trans hsteps).trans (.ofSilent rfl rfl)
    exact (hdrained.trans (.commitRevoked d' offsets)).trans (.tellOne _ rfl)

theorem unseen_poll : Unseen d (d.poll m).1 := by
  refine poll_keeps (P := Unseen d) (fun m r h => ?_) (fun b _ h => h.trans (.setBroker _ b))
    (.refl d) m
  cases r with
  | revoke ps => exact (h.trans (unseen_revoke _ m ps)).trans (.setBroker _ _)
  | assign ps => exact (h.trans (.setBroker _ _)).trans (.tellOne _ rfl)

theorem unseen_close : Unseen d (d.close m) := by
  unfold close
  split
  · exact .refl d
  · exact (unseen_revoke d m _).trans (.setBroker _ _)

omit [Held.DrainsInSteps ω] in
theorem unseen_terminate : Unseen d (d.terminate m) := by
  have hwait : Unseen d (d.awaitWorkers m d.settings.shutdownTimeout) := .await d m _ _ _
  unfold terminate
  dsimp only
  split <;> exact hwait.trans (.tellOne _ rfl)

end Calls

/-! ## The topics that are known -/

end Dispatcher

namespace Dispatch

/-- There are records of a topic in batches. -/
def HasTopic (batches : List Batch) (topic : String) : Prop :=
  ∃ batch ∈ batches, batch.isEmpty = false ∧ batch.partition.topic = topic

/-- A poll has returned records of a topic. -/
def PolledTopic (journal : List Event) (topic : String) : Prop :=
  ∃ batches, .polled batches ∈ journal ∧ HasTopic batches topic

theorem polledTopic_append {es : List Event} (h : ∀ e ∈ es, e.isPoll = false)
    (journal : List Event) (topic : String) :
    PolledTopic (es ++ journal) topic ↔ PolledTopic journal topic := by
  constructor
  · rintro ⟨batches, hmem, hrecords⟩
    refine ⟨batches, (List.mem_append.mp hmem).resolve_left fun he => ?_, hrecords⟩
    exact absurd (h _ he) nofun
  · rintro ⟨batches, hmem, hrecords⟩
    exact ⟨batches, List.mem_append_right es hmem, hrecords⟩

theorem polledTopic_polled (batches : List Batch) (journal : List Event) (topic : String) :
    PolledTopic (.polled batches :: journal) topic ↔
      PolledTopic journal topic ∨ HasTopic batches topic := by
  constructor
  · rintro ⟨polled, hmem, hrecords⟩
    rcases List.mem_cons.mp hmem with heq | hmem
    · exact Or.inr (Event.polled.inj heq ▸ hrecords)
    · exact Or.inl ⟨polled, hmem, hrecords⟩
  · rintro (⟨polled, hmem, hrecords⟩ | hrecords)
    · exact ⟨polled, List.mem_cons_of_mem _ hmem, hrecords⟩
    · exact ⟨batches, List.mem_cons_self, hrecords⟩

end Dispatch

namespace Dispatcher

variable {ω : Type}

/-- The topics that are known are those of which a poll has returned records. -/
def KnownTopicsInv (d : Dispatcher ω) : Prop :=
  ∀ topic, topic ∈ d.topics ↔ PolledTopic d.journal topic

/-- A change by which the topics of batches become known. -/
structure LearnsTopics (batches : List Batch) (d d' : Dispatcher ω) : Prop where
  topics : ∀ topic, topic ∈ d'.topics ↔ topic ∈ d.topics ∨ HasTopic batches topic
  tells : Tells (fun e => e.isUnseen = true) d d'

/-- Nothing is published, and the topics that are known are still those of the
polls. -/
structure Unpublished (d d' : Dispatcher ω) : Prop where
  knownTopicsInv : KnownTopicsInv d → KnownTopicsInv d'
  tells : Tells (fun e => e.isPublication = false) d d'

theorem mem_noteTopic (d : Dispatcher ω) (batch : Batch) (topic : String) :
    topic ∈ (d.noteTopic batch).topics ↔ topic ∈ d.topics ∨ batch.partition.topic = topic := by
  unfold noteTopic
  dsimp only
  split
  · next hknown =>
    refine ⟨Or.inl, fun h => h.elim id fun heq => ?_⟩
    exact heq ▸ List.contains_iff_mem.mp hknown
  · rw [List.mem_cons, or_comm, eq_comm]

/-- Empty batches are passed over, and the topic of any other becomes known. -/
theorem LearnsTopics.ofBatch {d d' : Dispatcher ω} {batch : Batch}
    (h : Unseen (if batch.isEmpty then d else d.noteTopic batch) d') :
    LearnsTopics [batch] d d' := by
  have hone (topic : String) : HasTopic [batch] topic ↔
      batch.isEmpty = false ∧ batch.partition.topic = topic := by
    simp [HasTopic]
  cases hempty : batch.isEmpty with
  | true =>
    rw [if_pos hempty] at h
    exact ⟨fun topic => by simp [h.topics, hone, hempty], h.tells⟩
  | false =>
    rw [if_neg (Bool.eq_false_iff.mp hempty)] at h
    refine ⟨fun topic => ?_, h.tells⟩
    rw [h.topics, mem_noteTopic, hone, and_iff_right hempty]

/-- The topics of batches that are received one after another become known. -/
theorem LearnsTopics.foldl {f : Dispatcher ω → Batch → Dispatcher ω}
    (h : ∀ d batch, LearnsTopics [batch] d (f d batch)) (batches : List Batch) (d : Dispatcher ω) :
    LearnsTopics batches d (batches.foldl f d) := by
  induction batches generalizing d with
  | nil => exact ⟨fun topic => by simp [HasTopic], .refl d⟩
  | cons batch batches ih =>
    have hfirst := h d batch
    have hrest := ih (f d batch)
    refine ⟨fun topic => ?_, hfirst.tells.trans hrest.tells⟩
    rw [List.foldl_cons, hrest.topics, hfirst.topics, or_assoc]
    simp [HasTopic, or_and_right, exists_or]

theorem Unseen.unpublished {d d' : Dispatcher ω} (h : Unseen d d') : Unpublished d d' := by
  refine ⟨fun htopicsKnown topic => ?_, h.tells.mono fun e he => (Event.isUnseen_iff.mp he).2⟩
  obtain ⟨es, hj, hes⟩ := h.tells
  rw [h.topics, htopicsKnown topic, hj,
    polledTopic_append fun e he => (Event.isUnseen_iff.mp (hes e he)).1]

theorem Unpublished.trans {d₁ d₂ d₃ : Dispatcher ω} (h₁ : Unpublished d₁ d₂)
    (h₂ : Unpublished d₂ d₃) : Unpublished d₁ d₃ :=
  ⟨fun h => h₂.knownTopicsInv (h₁.knownTopicsInv h), h₁.tells.trans h₂.tells⟩

/-- A poll is told, and the topics of its batches become known. -/
theorem LearnsTopics.unpublished {d d' : Dispatcher ω} {batches : List Batch}
    (h : LearnsTopics batches (d.tell [.polled batches]) d') : Unpublished d d' := by
  have hpolled : Tells (fun e => e.isPublication = false) d (d.tell [.polled batches]) :=
    .tellOne d rfl
  refine ⟨fun htopicsKnown topic => ?_,
    hpolled.trans (h.tells.mono fun e he => (Event.isUnseen_iff.mp he).2)⟩
  obtain ⟨es, hj, hes⟩ := h.tells
  rw [h.topics, hj, polledTopic_append fun e he => (Event.isUnseen_iff.mp (hes e he)).1]
  exact (or_congr_left (htopicsKnown topic)).trans (polledTopic_polled batches d.journal topic).symm

/-- What a move comes to: all that it does before the end, and the end, where the
monitor may be published. -/
def Turn (d d' : Dispatcher ω) : Prop :=
  ∃ d₁, Unpublished d d₁ ∧
    (d' = d₁ ∨ ∃ shown, shown.isUnseen = true ∧ d' = (d₁.report shown).commit false)

theorem Turn.after {d₁ d₂ d₃ : Dispatcher ω} (h : Turn d₂ d₃) (hd : Unpublished d₁ d₂) :
    Turn d₁ d₃ := by
  obtain ⟨d, hunpublished, hend⟩ := h
  exact ⟨d, hd.trans hunpublished, hend⟩

theorem topics_report (d : Dispatcher ω) (shown : Event) : (d.report shown).topics = d.topics := by
  unfold report
  split <;> rfl

/-- Neither a report nor a commit tells of polls. -/
theorem polled_report (d : Dispatcher ω) {shown : Event} (h : shown.isUnseen = true) :
    Tells (fun e => e.isPoll = false) d (d.report shown) := by
  unfold report
  split
  · refine ⟨_, rfl, fun e he => ?_⟩
    rcases List.mem_cons.mp (List.mem_reverse.mp he) with rfl | he
    · exact (Event.isUnseen_iff.mp h).1
    · rw [List.mem_singleton.mp he]
      rfl
  · exact .refl d

theorem Turn.knownTopicsInv {d d' : Dispatcher ω} (h : Turn d d') (hd : KnownTopicsInv d) :
    KnownTopicsInv d' := by
  obtain ⟨d₁, hunpublished, rfl | ⟨shown, hshown, rfl⟩⟩ := h
  · exact hunpublished.knownTopicsInv hd
  · refine (Unseen.commit _ false).unpublished.knownTopicsInv fun topic => ?_
    obtain ⟨es, hj, hes⟩ := d₁.polled_report hshown
    rw [topics_report, hunpublished.knownTopicsInv hd topic, hj, polledTopic_append hes]

theorem Unpublished.turn {d d' : Dispatcher ω} (h : Unpublished d d') : Turn d d' :=
  ⟨d', h, Or.inl rfl⟩

end Dispatcher

/-! ## Ordered dispatch -/

namespace OrderedDispatcher

open Dispatcher

variable (d : OrderedDispatcher) (m : Meanwhile)

theorem unseen_harvest : Unseen d (harvest d m).1 := by
  refine foldl_rel .refl .trans Prod.fst (fun s e => ?_) d.held.active.entries (d, [])
  obtain ⟨d, done⟩ := s
  have hread : Unseen d ((d.pass m (.completion e.2)).pass m (.progress e.2)) :=
    (Unseen.withWorkers d _).trans (.withWorkers _ _)
  unfold harvestOne
  dsimp only
  split
  · exact hread.trans (.record _ _ _)
  · exact hread

theorem unseen_start (batch : Batch) : Unseen d (start d batch) := by
  have htold : Unseen d (d.tell [.started d.workers.nextId batch]) := .tellOne d rfl
  exact ((htold.trans (.withWorkers _ _)).trans (.hold _ _)).trans (.withGate _ _)

theorem learnsTopics_receive (batch : Batch) : LearnsTopics [batch] d (receive d batch) := by
  refine .ofBatch ?_
  unfold receive
  split
  · exact .refl d
  · dsimp only
    split
    · exact (Unseen.hold _ _).trans (.tellOne _ rfl)
    · exact unseen_start _ batch

theorem unseen_retire (done : List Partition) : Unseen d (retire d done) := by
  have hall : Unseen d (done.foldl retireOne (d, [])).1 := by
    refine foldl_rel .refl .trans Prod.fst (fun s p => ?_) done (d, [])
    obtain ⟨d, idle⟩ := s
    unfold retireOne
    dsimp only
    split
    · exact ((Unseen.hold d _).trans (.hold _ _)).trans (unseen_start _ _)
    · exact .hold d _
  exact hall.trans (.withGate _ _)

theorem turn_takeUp (batches : List Batch) : Turn d (takeUp d m batches).1 := by
  have hreceived : Unpublished d (batches.foldl receive (d.tell [.polled batches])) :=
    (LearnsTopics.foldl learnsTopics_receive batches _).unpublished
  have hretired (d : OrderedDispatcher) : Unseen d (retire (harvest d m).1 (harvest d m).2) :=
    (unseen_harvest d m).trans (unseen_retire _ _)
  exact ⟨_, hreceived.trans ((hretired _).trans (.tellOne _ rfl)).unpublished,
    Or.inr ⟨.pausedShown _, rfl, rfl⟩⟩

theorem turn_cycle (t : Duration) : Turn d (cycle d m t).1 := by
  have hpolled : Unseen d ((d.elapse t).applyRequests.poll m).1 :=
    ((Unseen.elapse d t).trans (.withGate _ _)).trans (unseen_poll _ m)
  unfold cycle
  dsimp only
  split
  · next heq =>
    rw [heq] at hpolled
    exact (hpolled.trans (.tellOne _ rfl)).unpublished.turn
  · next d₁ batches heq =>
    rw [heq] at hpolled
    exact (turn_takeUp d₁ m batches).after hpolled.unpublished

theorem unseen_shutdown (t : Duration) : Unseen d (shutdown d m t) := by
  have hbegin : Unseen d ((d.elapse t).tell [.shuttingDown .ordered]) :=
    (Unseen.elapse d t).trans (.tellOne _ rfl)
  have hcommitted := (hbegin.trans (unseen_harvest _ m)).trans (.commit _ true)
  exact (hcommitted.trans (unseen_close _ m)).trans (unseen_terminate _ m)

end OrderedDispatcher

/-! ## Unordered dispatch -/

namespace UnorderedDispatcher

open Dispatcher

variable (d : UnorderedDispatcher) (m : Meanwhile)

theorem unseen_awaitAll (deadline : Instant) (ids : List ProcessorId) :
    Unseen d (awaitAll m deadline d ids).1 := by
  induction ids generalizing d with
  | nil => exact .refl d
  | cons id ids ih =>
    unfold awaitAll
    dsimp only
    split
    · exact .refl d
    · have hwait : Unseen d (d.awaitProcessor m id (Duration.between d.now deadline)) :=
        .await d m _ _ _
      split
      · exact hwait.trans (ih _)
      · exact hwait

theorem unseen_settle : Unseen d (settle d m).1 := by
  have hwait := unseen_awaitAll d m (Duration.after d.now d.settings.pollTimeout) (pending d)
  unfold settle
  split
  · next d' heq =>
    rw [heq] at hwait
    have hsettled : Unseen d' (d'.held.processors.entries.foldl settleOne d') := by
      refine foldl_rel .refl .trans id (fun d e => ?_) d'.held.processors.entries d'
      unfold settleOne
      split
      · exact .record d _ _
      · exact .refl d
    exact (hwait.trans hsettled).trans (.hold _ _)
  · next d' heq =>
    rw [heq] at hwait
    exact hwait

theorem learnsTopics_receive (batch : Batch) : LearnsTopics [batch] d (receive d batch) := by
  refine .ofBatch ?_
  unfold receive
  split
  · exact .refl d
  · refine (Unseen.tellOne _ rfl).trans (foldl_rel .refl .trans id (fun d single => ?_) _ _)
    exact (Unseen.withWorkers d _).trans (.hold _ _)

theorem turn_takeUp (batches : List Batch) : Turn d (takeUp d batches).1 := by
  have hreceived : Unpublished d (batches.foldl receive (d.tell [.polled batches])) :=
    (LearnsTopics.foldl learnsTopics_receive batches _).unpublished
  exact ⟨_, hreceived.trans (Unseen.tellOne _ rfl).unpublished, Or.inr ⟨.status _ _, rfl, rfl⟩⟩

theorem turn_cycle (t : Duration) : Turn d (cycle d m t).1 := by
  have hsettled : Unseen d (settle (d.elapse t).applyRequests m).1 :=
    ((Unseen.elapse d t).trans (.withGate _ _)).trans (unseen_settle _ m)
  unfold cycle
  dsimp only
  split
  · next d₁ heq =>
    rw [heq] at hsettled
    exact ⟨d₁, hsettled.unpublished, Or.inr ⟨.status _ _, rfl, rfl⟩⟩
  · next d₁ heq =>
    rw [heq] at hsettled
    have hpolled := hsettled.trans (unseen_poll d₁ m)
    split
    · next heq =>
      rw [heq] at hpolled
      exact (hpolled.trans (.tellOne _ rfl)).unpublished.turn
    · next d₂ batches heq =>
      rw [heq] at hpolled
      exact (turn_takeUp d₂ batches).after hpolled.unpublished

theorem unseen_shutdown (t : Duration) : Unseen d (shutdown d m t) := by
  have hbegin : Unseen d ((d.elapse t).tell [.shuttingDown .unordered]) :=
    (Unseen.elapse d t).trans (.tellOne _ rfl)
  have hsettled := hbegin.trans (unseen_settle _ m)
  unfold shutdown
  dsimp only
  generalize settle ((d.elapse t).tell [.shuttingDown .unordered]) m = s at hsettled ⊢
  have hleft : Unseen d (if s.2 = true then s.1 else s.1.tell [.leftInFlight]) := by
    split
    · exact hsettled
    · exact hsettled.trans (.tellOne _ rfl)
  have hcommitted := hleft.trans (.commit _ true)
  exact (hcommitted.trans (unseen_close _ m)).trans (unseen_terminate _ m)

end UnorderedDispatcher

/-! ## Runs -/

namespace Dispatch

/-- Work whose dispatcher publishes the monitor at the end of its cycles only. -/
class Cycled.Publishes (ω : Type) [Cycled ω] : Prop extends Held.DrainsInSteps ω where
  cycle : ∀ (d : Dispatcher ω) m t, Dispatcher.Turn d (Cycled.cycle d m t).1
  shutdown : ∀ (d : Dispatcher ω) m t, Dispatcher.Unseen d (Cycled.shutdown d m t)

instance : Cycled.Publishes Lanes where
  cycle := OrderedDispatcher.turn_cycle
  shutdown := OrderedDispatcher.unseen_shutdown

instance : Cycled.Publishes InFlight where
  cycle := UnorderedDispatcher.turn_cycle
  shutdown := UnorderedDispatcher.unseen_shutdown

end Dispatch

namespace Dispatcher

variable {ω : Type} [Cycled ω] [Cycled.Publishes ω]

theorem turn_move (d : Dispatcher ω) (move : Move) : Turn d (d.move move) := by
  have unseen {d' : Dispatcher ω} (h : Unseen d d') : Turn d d' := h.unpublished.turn
  cases move with
  | cycle m t => exact Cycled.Publishes.cycle d m t
  | revoke m t ps => exact unseen ((Unseen.elapse d t).trans (unseen_revoke _ m ps))
  | shutdown m t => exact unseen (Cycled.Publishes.shutdown d m t)
  | work task => exact unseen (.withWorkers d _)
  | pauseAll => exact unseen (.ofSilent rfl rfl)
  | resumeAll => exact unseen (.ofSilent rfl rfl)
  | broker change => exact unseen (.setBroker d _)

/-- Whatever has happened, the topics that are known are those of the polls. -/
theorem knownTopicsInv_run (settings : Settings) (workers : Workers) (broker : Broker)
    (moves : List Move) :
    KnownTopicsInv ((initial settings workers broker : Dispatcher ω).run moves) := by
  refine run_induction (fun topic => ?_) fun d move _ h => (turn_move d move).knownTopicsInv h
  refine ⟨fun h => absurd h List.not_mem_nil, ?_⟩
  rintro ⟨batches, hmem, -⟩
  exact absurd (List.mem_singleton.mp hmem) nofun

end Dispatcher
end RecordDispatch
