import Mathlib.Data.List.Forall2
import RecordDispatch.Dispatch.Run
import RecordDispatch.Proofs.Outline

/-!
# Dispatchers that match

Two dispatchers match when they have the same outline, so that nothing but the
contents of records, the handler and what became of records tells them apart.
The journal tells of contents and is left out.

Everything that a dispatcher does takes two that match to two that match, if
what happens beside it matches as well.  There is one lemma for each step of
this kind, and one for each thing that is read.
-/

namespace RecordDispatch

open Dispatch

namespace Dispatch

/-- Work that has an outline. -/
class Outlined (ω : Type) where
  outline : ω → ω

instance : Outlined Lanes where
  outline l := { l with deferred := l.deferred.map Batch.outline }

instance : Outlined InFlight where
  outline := id

/-- At every point the same happens beside workers with the same outline. -/
def Meanwhile.Matches (m m' : Meanwhile) : Prop :=
  ∀ point w w', Workers.outline w = Workers.outline w' → m point w = m' point w'

/-- The same move, but for the contents of the records that arrive. -/
inductive Move.Matches : Move → Move → Prop
  | cycle {m m' : Meanwhile} (h : m.Matches m') (t : Duration) :
    Matches (.cycle m t) (.cycle m' t)
  | revoke {m m' : Meanwhile} (h : m.Matches m') (t : Duration) (ps : List Partition) :
    Matches (.revoke m t ps) (.revoke m' t ps)
  | shutdown {m m' : Meanwhile} (h : m.Matches m') (t : Duration) :
    Matches (.shutdown m t) (.shutdown m' t)
  | work (task : Nat) : Matches (.work task) (.work task)
  | pauseAll : Matches .pauseAll .pauseAll
  | resumeAll : Matches .resumeAll .resumeAll
  | broker {c c' : Broker.Change} (h : c.outline = c'.outline) : Matches (.broker c) (.broker c')

end Dispatch

/-- A commit hands the same offsets to a broker that has the same outline. -/
theorem Commit.run_outline (s : Schedule) (now : Instant) (forced : Bool) (l : Ledger)
    (b : Broker) :
    run s now forced l b.outline =
      { run s now forced l b with broker := (run s now forced l b).broker.outline } := by
  unfold run
  split
  · dsimp only
    rw [b.commit_outline]
    obtain ⟨b, e | u⟩ := b.commit (s.modeOf forced) l.pending <;> rfl
  · rfl

namespace Dispatcher

variable {ω : Type} [Outlined ω]

/-- A dispatcher with the outlines of its parts, and without its journal. -/
def outline (d : Dispatcher ω) : Dispatcher ω :=
  { d with
    workers := d.workers.outline
    gate := d.gate.outline
    held := Outlined.outline d.held
    journal := [] }

/-- Two dispatchers have the same outline. -/
def Matches (d d' : Dispatcher ω) : Prop :=
  d.outline = d'.outline

/-- Two dispatchers match, and what comes with them is the same. -/
def MatchesWith {α : Type} (s s' : Dispatcher ω × α) : Prop :=
  s.1.Matches s'.1 ∧ s.2 = s'.2

theorem MatchesWith.exists_eq {α : Type} {s s' : Dispatcher ω × α} (h : MatchesWith s s') :
    ∃ d d' a, s = (d, a) ∧ s' = (d', a) ∧ d.Matches d' :=
  ⟨s.1, s'.1, s.2, rfl, by rw [h.2], h.1⟩

namespace Matches

variable {d d' : Dispatcher ω}

/-! ## What is read -/

section Reads

variable (h : d.Matches d')

include h

theorem same {α : Type} (f : Dispatcher ω → α) : f d.outline = f d'.outline :=
  congrArg f h

theorem settings : d.settings = d'.settings :=
  h.same (·.settings)

theorem now : d.now = d'.now :=
  h.same (·.now)

theorem ledger : d.ledger = d'.ledger :=
  h.same (·.ledger)

theorem monitor : d.monitor = d'.monitor :=
  h.same (·.monitor)

theorem broker : d.broker.outline = d'.broker.outline :=
  h.same (·.broker)

theorem requests : d.broker.requests = d'.broker.requests :=
  h.same (·.broker.requests)

theorem workers : d.workers.outline = d'.workers.outline :=
  h.same (·.workers)

/-- What the outline of workers tells is the same. -/
theorem read {α : Type} {f : Workers → α} (hf : ∀ w : Workers, f w.outline = f w) :
    f d.workers = f d'.workers := by
  rw [← hf, h.workers, hf]

theorem isDone (id : ProcessorId) : d.workers.isDone id = d'.workers.isDone id :=
  h.read (f := (·.isDone id)) fun w => w.isDone_outline id

theorem committable? (id : ProcessorId) :
    d.workers.committable? id = d'.workers.committable? id :=
  h.read (f := (·.committable? id)) fun w => w.committable?_outline id

end Reads

/-! ## Small changes -/

theorem tell (h : d.Matches d') (es es' : List Dispatch.Event) :
    (d.tell es).Matches (d'.tell es') :=
  h

theorem elapse (h : d.Matches d') (t : Duration) : (d.elapse t).Matches (d'.elapse t) :=
  h.same fun d => d.elapse t

theorem hold (h : d.Matches d') {held held' : ω}
    (hh : Outlined.outline held = Outlined.outline held') :
    (d.hold held).Matches (d'.hold held') := by
  change d.outline.hold (Outlined.outline held) = d'.outline.hold (Outlined.outline held')
  rw [h, hh]

theorem setBroker (h : d.Matches d') {b b' : Broker} (hb : b.outline = b'.outline) :
    (d.setBroker b).Matches (d'.setBroker b') := by
  change d.outline.setBroker b.outline = d'.outline.setBroker b'.outline
  rw [h, hb]

theorem setMonitor (h : d.Matches d') (m : Monitor) :
    (d.setMonitor m).Matches (d'.setMonitor m) :=
  h.same fun d => d.setMonitor m

theorem setLedger (h : d.Matches d') (ledger : Ledger) :
    Matches { d with ledger } { d' with ledger } :=
  h.same fun d => ({ d with ledger } : Dispatcher ω)

theorem setWorkers (h : d.Matches d') {w w' : Workers} (hw : w.outline = w'.outline) :
    Matches { d with workers := w } { d' with workers := w' } := by
  change { d.outline with workers := w.outline } = { d'.outline with workers := w'.outline }
  rw [h, hw]

theorem withWorkers (h : d.Matches d') {r r' : Workers × List Workers.Event}
    (hw : r.1.outline = r'.1.outline) : (d.withWorkers r).Matches (d'.withWorkers r') :=
  h.setWorkers hw

theorem stop (h : d.Matches d') (id : ProcessorId) :
    Matches { d with workers := d.workers.stop id } { d' with workers := d'.workers.stop id } := by
  refine h.setWorkers ?_
  rw [Workers.outline_stop, h.workers, Workers.outline_stop]

theorem record (h : d.Matches d') (p : Partition) (next : Int) :
    (d.record p next).Matches (d'.record p next) :=
  h.same fun d => ({ d with ledger := d.ledger.record p next } : Dispatcher ω)

theorem noteTopic (h : d.Matches d') {batch batch' : Batch} (hb : batch.outline = batch'.outline) :
    (d.noteTopic batch).Matches (d'.noteTopic batch') := by
  change d.outline.noteTopic batch.outline = d'.outline.noteTopic batch'.outline
  rw [h, hb]

theorem submit (h : d.Matches d') {batch batch' : Batch} (hb : batch.outline = batch'.outline) :
    (d.submit batch).Matches (d'.submit batch') := by
  have hsubmit (d : Dispatcher ω) (batch : Batch) :
      ((d.workers.create batch).submit d.workers.nextId).1.outline =
        ((d.workers.outline.create batch.outline).submit d.workers.outline.nextId).1 := by
    rw [Workers.outline_submit, Workers.outline_create, Workers.nextId_outline]
  refine h.withWorkers ?_
  rw [hsubmit, hsubmit, h.workers, hb]

theorem report (h : d.Matches d') (shown shown' : Dispatch.Event) :
    (d.report shown).Matches (d'.report shown') := by
  have hdue : d.reportIsDue = d'.reportIsDue := h.same (·.reportIsDue)
  unfold Dispatcher.report
  rw [hdue]
  split
  · exact h.same fun d => { d with lastReport := d.now }
  · exact h

/-- A change of the gate that does not look at contents. -/
theorem withGate (h : d.Matches d') {f : Gate → Gate × List Gate.Event}
    (hf : ∀ g, f g.outline = ((f g).1.outline, (f g).2)) :
    (d.withGate (f d.gate)).Matches (d'.withGate (f d'.gate)) := by
  have hgate (d : Dispatcher ω) :
      (d.withGate (f d.gate)).outline = { d.outline with gate := (f d.outline.gate).1 } := by
    change _ = { d.outline with gate := (f d.gate.outline).1 }
    rw [hf]
    rfl
  unfold Matches
  rw [hgate, hgate, h]

theorem applyRequests (h : d.Matches d') : d.applyRequests.Matches d'.applyRequests := by
  unfold Dispatcher.applyRequests
  rw [h.now]
  exact h.withGate (f := (·.apply d'.now)) fun g => g.apply_outline d'.now

/-! ## Workers beside the dispatcher -/

theorem work (h : d.Matches d') (steps : List Nat) : (d.work steps).Matches (d'.work steps) := by
  refine h.withWorkers ?_
  rw [Workers.outline_run, h.workers, ← Workers.outline_run]

variable {m m' : Meanwhile}

theorem pass (h : d.Matches d') (hm : m.Matches m') (point : Point) :
    (d.pass m point).Matches (d'.pass m' point) := by
  unfold Dispatcher.pass
  rw [hm point _ _ h.workers]
  exact h.work _

theorem await (h : d.Matches d') (hm : m.Matches m') (point : Point) (timeout : Duration)
    {isOver : Workers → Bool} (ho : ∀ w, isOver (Workers.outline w) = isOver w) :
    (d.await m point timeout isOver).Matches (d'.await m' point timeout isOver) := by
  unfold Dispatcher.await
  rw [h.read ho]
  split
  · exact h
  · have hwork := h.work (m' point d'.workers).steps
    dsimp only
    rw [hm point _ _ h.workers, hwork.read ho]
    exact hwork.elapse _

theorem awaitProcessor (h : d.Matches d') (hm : m.Matches m') (id : ProcessorId)
    (timeout : Duration) :
    (d.awaitProcessor m id timeout).Matches (d'.awaitProcessor m' id timeout) :=
  h.await hm (.wait id) timeout fun w => w.isDone_outline id

/-! ## Commits -/

theorem commit (h : d.Matches d') (forced : Bool) :
    (d.commit forced).Matches (d'.commit forced) := by
  have hcommit (d : Dispatcher ω) :
      (d.commit forced).outline = { d.outline.commit forced with journal := [] } := by
    have hrun : Commit.run d.outline.schedule d.outline.now forced d.outline.ledger
        d.outline.broker = _ :=
      Commit.run_outline d.schedule d.now forced d.ledger d.broker
    unfold Dispatcher.commit
    rw [hrun]
    rfl
  unfold Matches
  rw [hcommit, hcommit, h]

theorem commitRevoked (h : d.Matches d') (offsets : Offsets) :
    (d.commitRevoked offsets).Matches (d'.commitRevoked offsets) := by
  have hcommit (d : Dispatcher ω) :
      (d.commitRevoked offsets).outline =
        { d.outline.commitRevoked offsets with journal := [] } := by
    have hrun : d.outline.broker.commit .sync offsets = _ := d.broker.commit_outline .sync offsets
    unfold Dispatcher.commitRevoked
    rw [hrun]
    split
    · rfl
    · obtain ⟨b, e | u⟩ := d.broker.commit .sync offsets <;> rfl
  unfold Matches
  rw [hcommit, hcommit, h]

end Matches
end Dispatcher

/-! ## Drains and polls -/

namespace Dispatch

/-- Work of which a drain does not look at contents. -/
class Held.Blind (ω : Type) [Held ω] [Outlined ω] : Prop where
  drain : ∀ {d d' : Dispatcher ω} {m m' : Meanwhile} (ps : List Partition), d.Matches d' →
    m.Matches m' → Dispatcher.MatchesWith (Held.drain d m ps) (Held.drain d' m' ps)

end Dispatch

namespace Dispatcher.Matches

variable {ω : Type} [Outlined ω] [Held ω] {d d' : Dispatcher ω} {m m' : Meanwhile}

theorem terminate (h : d.Matches d') (hm : m.Matches m') :
    (d.terminate m).Matches (d'.terminate m') := by
  unfold Dispatcher.terminate
  dsimp only
  rw [h.settings]
  have hwait : (d.awaitWorkers m d'.settings.shutdownTimeout).Matches
      (d'.awaitWorkers m' d'.settings.shutdownTimeout) :=
    h.await hm .allWorkers _ fun w => by rw [w.inFlight_outline]
  rw [hwait.read Workers.inFlight_outline]
  split <;> exact hwait.tell _ _

variable [Held.Blind ω]

theorem revoke (h : d.Matches d') (hm : m.Matches m') (ps : List Partition) :
    (d.revoke m ps).Matches (d'.revoke m' ps) := by
  unfold Dispatcher.revoke
  split
  · exact h
  · obtain ⟨hdrain, hoffsets⟩ := Held.Blind.drain ps (h.tell [.revoking ps] [.revoking ps]) hm
    dsimp only
    rw [hoffsets]
    exact (hdrain.commitRevoked _).tell _ _

theorem deliver (h : d.Matches d') (hm : m.Matches m') (r : Broker.Rebalance) :
    (Dispatcher.deliver m d r).Matches (Dispatcher.deliver m' d' r) := by
  cases r with
  | revoke ps =>
    have hrevoke := h.revoke hm ps
    exact hrevoke.setBroker (congrArg (fun b : Broker => b.revoke ps) hrevoke.broker)
  | assign ps =>
    have hassign : (d.broker.assign ps).outline = (d'.broker.assign ps).outline :=
      congrArg (fun b : Broker => b.assign ps) h.broker
    exact (h.setBroker hassign).tell _ _

theorem deliverAll (h : d.Matches d') (hm : m.Matches m') :
    (d.deliverAll m).Matches (d'.deliverAll m') := by
  have hrebalances : d.broker.rebalances = d'.broker.rebalances :=
    h.same (·.broker.rebalances)
  have hstart : (d.setBroker { d.broker with rebalances := [] }).Matches
      (d'.setBroker { d'.broker with rebalances := [] }) :=
    h.setBroker (congrArg (fun b : Broker => { b with rebalances := [] }) h.broker)
  unfold Dispatcher.deliverAll
  rw [hrebalances]
  generalize d.setBroker { d.broker with rebalances := [] } = e at hstart
  generalize d'.setBroker { d'.broker with rebalances := [] } = e' at hstart
  induction d'.broker.rebalances generalizing e e' with
  | nil => exact hstart
  | cons r rs ih => exact ih _ _ (hstart.deliver hm r)

/-- Polls return batches with the same outlines, or the same error. -/
theorem poll (h : d.Matches d') (hm : m.Matches m') :
    (d.poll m).1.Matches (d'.poll m').1 ∧
      (d.poll m).2.map (·.map Batch.outline) = (d'.poll m').2.map (·.map Batch.outline) := by
  have herrors : d.broker.clientErrors = d'.broker.clientErrors :=
    h.same (·.broker.clientErrors)
  unfold Dispatcher.poll
  rw [herrors]
  split
  · next e rest _ =>
    exact ⟨h.setBroker (congrArg (fun b : Broker => { b with clientErrors := rest }) h.broker), rfl⟩
  · have hdelivered := h.deliverAll hm
    have hfetch := congrArg Broker.fetch hdelivered.broker
    rw [Broker.fetch_outline, Broker.fetch_outline] at hfetch
    exact ⟨hdelivered.setBroker (congrArg Prod.fst hfetch), congrArg Prod.snd hfetch⟩

theorem poll_cases (h : d.Matches d') (hm : m.Matches m') :
    ∃ d₁ d₁' : Dispatcher ω, d₁.Matches d₁' ∧
      ((∃ e, d.poll m = (d₁, .error e) ∧ d'.poll m' = (d₁', .error e)) ∨
        ∃ batches batches', d.poll m = (d₁, .ok batches) ∧ d'.poll m' = (d₁', .ok batches') ∧
          batches.map Batch.outline = batches'.map Batch.outline) := by
  obtain ⟨hpoll, hanswer⟩ := h.poll hm
  generalize d.poll m = s at hpoll hanswer ⊢
  generalize d'.poll m' = s' at hpoll hanswer ⊢
  obtain ⟨d₁, answer⟩ := s
  obtain ⟨d₁', answer'⟩ := s'
  refine ⟨d₁, d₁', hpoll, ?_⟩
  cases answer with
  | error e =>
    cases answer' with
    | error e' => exact Or.inl ⟨e, rfl, by rw [Except.error.inj hanswer]⟩
    | ok batches' => exact absurd hanswer nofun
  | ok batches =>
    cases answer' with
    | error e' => exact absurd hanswer nofun
    | ok batches' => exact Or.inr ⟨batches, batches', rfl, rfl, Except.ok.inj hanswer⟩

theorem close (h : d.Matches d') (hm : m.Matches m') : (d.close m).Matches (d'.close m') := by
  have hclosed : d.broker.closed = d'.broker.closed := h.same (·.broker.closed)
  have hassigned : d.broker.assigned = d'.broker.assigned := h.same (·.broker.assigned)
  unfold Dispatcher.close
  rw [hclosed, hassigned]
  split
  · exact h
  · have hrevoke := h.revoke hm (Partition.sort d'.broker.assigned)
    exact hrevoke.setBroker (congrArg Broker.leave hrevoke.broker)

end Dispatcher.Matches

/-! ## Polled batches -/

namespace Dispatcher

variable {ω : Type} [Outlined ω] {d d' : Dispatcher ω} {batches batches' : List Batch}

theorem recordCount_of_outline (h : batches.map Batch.outline = batches'.map Batch.outline) :
    Event.recordCount batches = Event.recordCount batches' := by
  have hsize (bs : List Batch) :
      Event.recordCount bs = ((bs.map Batch.outline).flatMap (·.records)).length := by
    simp [Event.recordCount, List.flatMap_map, List.length_flatMap]
  rw [hsize, h, hsize]

/-- Taking up one batch after another does not look at contents if taking up one
does not. -/
theorem foldl_outline {f : Dispatcher ω → Batch → Dispatcher ω}
    (step : ∀ {d d' b b'}, d.Matches d' → Batch.outline b = Batch.outline b' →
      (f d b).Matches (f d' b'))
    (hb : batches.map Batch.outline = batches'.map Batch.outline) (h : d.Matches d') :
    (batches.foldl f d).Matches (batches'.foldl f d') := by
  induction batches generalizing batches' d d' with
  | nil =>
    rw [List.map_eq_nil_iff.mp hb.symm]
    exact h
  | cons b bs ih =>
    cases batches' with
    | nil => exact absurd hb nofun
    | cons b' bs' =>
      obtain ⟨hfirst, hrest⟩ := List.cons.inj hb
      rw [List.foldl_cons, List.foldl_cons]
      exact ih hrest (step h hfirst)

end Dispatcher

/-! ## Runs -/

namespace Dispatcher

variable {ω : Type} [Outlined ω] [Cycled ω] {d d' : Dispatcher ω}

/-- At their start dispatchers differ by their handlers and by the contents of the
records that their brokers have. -/
theorem matches_initial (settings : Settings) (size : Nat) (handler handler' : Handler)
    {broker broker' : Broker} (hb : broker.outline = broker'.outline) :
    (initial settings (Workers.ofSize size handler) broker : Dispatcher ω).Matches
      (initial settings (Workers.ofSize size handler') broker') := by
  have hstart (handler : Handler) (broker : Broker) :
      (initial settings (Workers.ofSize size handler) broker : Dispatcher ω).outline =
        { settings
          workers := (Workers.ofSize size handler').outline
          gate := { broker := broker.outline }
          schedule := { interval := settings.commitInterval, mode := settings.commitMode }
          held := Outlined.outline Cycled.nothing } :=
    rfl
  unfold Matches
  rw [hstart, hstart, hb]

variable [Held.Blind ω]

/-- Dispatchers that match still do after moves that match. -/
theorem Matches.run
    (cycle : ∀ {d d' : Dispatcher ω} {m m'} (t), d.Matches d' → m.Matches m' →
      (Cycled.cycle d m t).1.Matches (Cycled.cycle d' m' t).1)
    (shutdown : ∀ {d d' : Dispatcher ω} {m m'} (t), d.Matches d' → m.Matches m' →
      (Cycled.shutdown d m t).Matches (Cycled.shutdown d' m' t))
    (h : d.Matches d') {moves moves' : List Move} (hm : List.Forall₂ Move.Matches moves moves') :
    (d.run moves).Matches (d'.run moves') := by
  induction hm generalizing d d' with
  | nil => exact h
  | cons hmove _ ih =>
    refine ih ?_
    cases hmove with
    | cycle hm t => exact cycle t h hm
    | revoke hm t ps => exact (h.elapse t).revoke hm ps
    | shutdown hm t => exact shutdown t h hm
    | work task => exact h.work [task]
    | pauseAll => exact h.same fun d => { d with gate := d.gate.requestPause }
    | resumeAll =>
      exact h.same fun d => { d with gate := d.gate.requestResume }
    | broker hc =>
      refine h.setBroker ?_
      rw [Broker.outline_apply, Broker.outline_apply, h.broker, hc]

end Dispatcher
end RecordDispatch
