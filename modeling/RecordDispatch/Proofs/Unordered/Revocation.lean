import RecordDispatch.Proofs.Unordered.Cycle

/-!
# Revocations of an unordered dispatcher

As in ordered dispatch, the account of what was in flight when a drain began
goes on until the period of the drained partitions ends.  `DrainWaitInv` is the
invariant while stopped processors are waited for: what is staged is settled.
Offsets that were pending are.  The highest offset of a partition's processors
is staged only if each of them was found finished at the end of its wait, and
those that have finished stay as they are (`Tracked.awaitFinished`,
`staged_drainOne`).
-/

namespace RecordDispatch.UnorderedDispatcher

open Dispatch

section Drain

variable {base : List Broker.Request} {flying : Partition → List ProcessorId}
  {waiting : Partition → List Record} {l : Ledger} {d d' : UnorderedDispatcher}

/-! ## Stopping -/

/-- Different partitions have different processors. -/
theorem Tracked.ne_of_ne (h : Tracked base flying waiting l d) {p q : Partition}
    {i j : ProcessorId} (hi : i ∈ flying p) (hj : j ∈ flying q) (hne : q ≠ p) : j ≠ i := by
  rintro rfl
  obtain ⟨q₁, hq₁, hp₁⟩ := (h.tallies.tally p).exists_processor hi
  obtain ⟨q₂, hq₂, hp₂⟩ := (h.tallies.tally q).exists_processor hj
  obtain rfl := Option.some.inj (hq₁.symm.trans hq₂)
  exact hne (hp₂.symm.trans hp₁)

theorem Tracked.mem_flying (h : Tracked base flying waiting l d) {p : Partition}
    {id : ProcessorId} (hid : id ∈ flightOf d p) : id ∈ flying p := by
  unfold flightOf at hid
  cases hfind : d.held.processors.find? p with
  | none =>
    rw [hfind] at hid
    exact absurd hid List.not_mem_nil
  | some ids =>
    rw [hfind] at hid
    rw [h.flights p ids hfind]
    exact hid

/-- A processor is stopped that is not in flight any more. -/
theorem Tracked.stopProcessor (h : Tracked base flying waiting l d) (m : Meanwhile)
    {id : ProcessorId} (hfree : ∀ p, id ∉ flightOf d p) :
    Tracked base flying waiting l (stopProcessor m d id) := by
  have hstop : Tracked base flying waiting l { d with workers := d.workers.stop id } := by
    refine ⟨h.tallies.stop id, h.flights, fun p i hi => ?_, h.linked⟩
    exact (h.unstopped p i hi).stop fun heq => hfree p (heq ▸ hi)
  exact hstop.work _

theorem Tracked.stopProcessors (h : Tracked base flying waiting l d) (m : Meanwhile)
    (ids : List ProcessorId) (hfree : ∀ id ∈ ids, ∀ p, id ∉ flightOf d p) :
    Tracked base flying waiting l (ids.foldl (UnorderedDispatcher.stopProcessor m) d) := by
  induction ids generalizing d with
  | nil => exact h
  | cons id ids ih =>
    exact ih (h.stopProcessor m (hfree id List.mem_cons_self)) fun i hi =>
      hfree i (List.mem_cons_of_mem id hi)

theorem Tracked.stopOne (h : Tracked base flying waiting l d) (m : Meanwhile)
    (draining : List (Partition × List ProcessorId)) (p : Partition) :
    Tracked base flying waiting l (stopOne m (d, draining) p).1 := by
  unfold UnorderedDispatcher.stopOne
  dsimp only
  split
  · next ids hfind =>
    have hkept {q : Partition} {ids' : List ProcessorId}
        (ha : (d.held.processors.erase p).find? q = some ids') :
        q ≠ p ∧ d.held.processors.find? q = some ids' := by
      rw [Table.find?_erase] at ha
      split at ha
      · exact absurd ha nofun
      · next hne => exact ⟨hne, ha⟩
    have hflight {q : Partition} {id : ProcessorId}
        (hid : id ∈ flightOf (d.hold ⟨d.held.processors.erase p⟩) q) :
        q ≠ p ∧ id ∈ flightOf d q := by
      unfold flightOf at hid ⊢
      simp only [Dispatcher.hold, Table.find?_erase] at hid
      split at hid
      · exact absurd hid List.not_mem_nil
      · next hne => exact ⟨hne, hid⟩
    have herase : Tracked base flying waiting l (d.hold ⟨d.held.processors.erase p⟩) :=
      ⟨h.tallies, fun q ids' ha => h.flights q ids' (hkept ha).2,
        fun q id hid => h.unstopped q id (hflight hid).2, h.linked⟩
    refine herase.stopProcessors m ids fun id hid q hmem => ?_
    obtain ⟨hne, hother⟩ := hflight hmem
    have hmine : id ∈ flying p := by
      rw [h.flights p ids hfind]
      exact hid
    exact h.ne_of_ne hmine (h.mem_flying hother) hne rfl
  · exact h

theorem Tracked.stopAll (h : Tracked base flying waiting l d) (m : Meanwhile)
    (draining : List (Partition × List ProcessorId)) (ps : List Partition) :
    Tracked base flying waiting l (ps.foldl (UnorderedDispatcher.stopOne m) (d, draining)).1 := by
  induction ps generalizing d draining with
  | nil => exact h
  | cons p ps ih => exact ih (h.stopOne m draining p) _

/-! ### What is taken out -/

/-- What stopping the processors of partitions leaves and takes. -/
structure Emptied (d d' : UnorderedDispatcher) (ps : List Partition) : Prop where
  ledger : d'.ledger = d.ledger
  held : ∀ p, d'.held.processors.find? p =
    if p ∈ ps then none else d.held.processors.find? p

section Stop

variable (m : Meanwhile) (d : UnorderedDispatcher)
  (draining : List (Partition × List ProcessorId))

theorem frame_stopProcessors (ids : List ProcessorId) :
    (ids.foldl (stopProcessor m) d).held = d.held ∧
      (ids.foldl (stopProcessor m) d).ledger = d.ledger :=
  Dispatcher.frame_foldl (f := stopProcessor m) id (fun _ _ => ⟨rfl, rfl⟩) ids d

theorem emptied_stopOne (p : Partition) : Emptied d (stopOne m (d, draining) p).1 [p] := by
  unfold stopOne
  dsimp only
  split
  · next ids _ =>
    obtain ⟨hheld, hledger⟩ := frame_stopProcessors m (d.hold ⟨d.held.processors.erase p⟩) ids
    refine ⟨hledger, fun q => ?_⟩
    rw [hheld]
    simp [Dispatcher.hold]
  · next hnone =>
    refine ⟨rfl, fun q => ?_⟩
    split
    · next heq => rw [List.mem_singleton.mp heq, hnone]
    · rfl

/-- The processors that are stopped are those in flight. -/
theorem stopped_stopOne (p : Partition) :
    (stopOne m (d, draining) p).2 =
      draining ++ ((d.held.processors.find? p).map fun ids => (p, ids)).toList := by
  unfold stopOne
  dsimp only
  split
  · next hfind => rw [hfind]; rfl
  · next hnone => rw [hnone]; exact (List.append_nil draining).symm

theorem emptied_stopAll (ps : List Partition) :
    Emptied d (ps.foldl (stopOne m) (d, draining)).1 ps := by
  induction ps generalizing d draining with
  | nil => exact ⟨rfl, fun p => by simp⟩
  | cons p ps ih =>
    have hfirst := emptied_stopOne m d draining p
    have hrest := ih (stopOne m (d, draining) p).1 (stopOne m (d, draining) p).2
    refine ⟨hrest.ledger.trans hfirst.ledger, fun q => (hrest.held q).trans ?_⟩
    rw [hfirst.held]
    by_cases hq : q ∈ ps <;> simp [hq]

/-- Exactly the processors that were in flight are to be waited for. -/
theorem mem_stopAll (ps : List Partition) (p : Partition) (ids : List ProcessorId) :
    (p, ids) ∈ (ps.foldl (stopOne m) (d, draining)).2 ↔
      (p, ids) ∈ draining ∨ p ∈ ps ∧ d.held.processors.find? p = some ids := by
  induction ps generalizing d draining with
  | nil => simp
  | cons p' ps ih =>
    have hrest := ih (stopOne m (d, draining) p').1 (stopOne m (d, draining) p').2
    rw [List.foldl_cons, hrest, stopped_stopOne, (emptied_stopOne m d draining p').held]
    simp only [List.mem_append, Option.mem_toList, Option.map_eq_some_iff, Prod.mk.injEq,
      List.mem_cons, or_assoc]
    by_cases hp : p = p'
    · subst hp
      simp
    · simp [hp, Ne.symm hp]

end Stop

/-! ## Waiting -/

theorem isFinished_later {w w' : Workers} {id : ProcessorId} (hw : w.Later w')
    (h : isFinished w id = true) : isFinished w' id = true := by
  unfold isFinished at h ⊢
  cases hq : w.processor? id with
  | none => rw [hw.processor?_none hq]; rfl
  | some q =>
    rw [hq, Option.map_some, Option.getD_some, beq_iff_eq] at h
    rw [hw.done hq (Processor.isDone_of_finished h), Option.map_some, Option.getD_some, h]
    rfl

theorem worked_awaitFinished (m : Meanwhile) (deadline : Instant)
    (s : UnorderedDispatcher × Bool) (id : ProcessorId) :
    Dispatcher.Worked s.1 (awaitFinished m deadline s id).1 :=
  (s.1.worked_await m _ _ _).trans (.work _ _)

theorem worked_awaitAll (m : Meanwhile) (deadline : Instant) (ids : List ProcessorId)
    (s : UnorderedDispatcher × Bool) :
    Dispatcher.Worked s.1 (ids.foldl (awaitFinished m deadline) s).1 :=
  Dispatcher.foldl_rel .refl .trans Prod.fst (worked_awaitFinished m deadline) ids s

/-- If each processor was found finished, all of them are finished in the end. -/
theorem Tracked.awaitFinished (h : Tracked base flying waiting l d) (m : Meanwhile)
    (deadline : Instant) (ids : List ProcessorId) (all : Bool) :
    Tracked base flying waiting l
        (ids.foldl (UnorderedDispatcher.awaitFinished m deadline) (d, all)).1 ∧
      ((ids.foldl (UnorderedDispatcher.awaitFinished m deadline) (d, all)).2 = true →
        all = true ∧ ∀ id ∈ ids, isFinished
          (ids.foldl (UnorderedDispatcher.awaitFinished m deadline) (d, all)).1.workers id
            = true) := by
  induction ids generalizing d all with
  | nil => exact ⟨h, fun hall => ⟨hall, nofun⟩⟩
  | cons id ids ih =>
    have hwait : Tracked base flying waiting l
        (UnorderedDispatcher.awaitFinished m deadline (d, all) id).1 :=
      (h.await m _ _ _).work _
    have hanswer : (UnorderedDispatcher.awaitFinished m deadline (d, all) id).2 =
        (all && isFinished
          (UnorderedDispatcher.awaitFinished m deadline (d, all) id).1.workers id) := rfl
    rw [List.foldl_cons]
    generalize UnorderedDispatcher.awaitFinished m deadline (d, all) id = s at hwait hanswer ⊢
    obtain ⟨htracked, hall⟩ := ih hwait s.2
    refine ⟨htracked, fun htrue => ?_⟩
    obtain ⟨hfirst, hrest⟩ := hall htrue
    rw [hanswer, Bool.and_eq_true] at hfirst
    refine ⟨hfirst.1, fun i hi => ?_⟩
    rcases List.mem_cons.mp hi with rfl | hi
    · exact isFinished_later (worked_awaitAll m deadline ids s).later hfirst.2
    · exact hrest i hi

/-! ### What the waits for a partition come to -/

section Waits

variable (m : Meanwhile) (deadline : Instant) (s : UnorderedDispatcher × Offsets)
  (e : Partition × List ProcessorId)

/-- When they are over, it is told how they ended. -/
theorem told_drainOne :
    ∃ result, (drainOne m deadline s e).1 =
      (e.2.foldl (awaitFinished m deadline) (s.1, true)).1.tell
        [.drained e.1 result s.1.settings.revokeDrainTimeout] := by
  unfold drainOne
  dsimp only
  split
  · exact ⟨_, rfl⟩
  · split <;> exact ⟨_, rfl⟩

theorem find?_raise (staged : Offsets) (p q : Partition) (offset : Int) :
    (raise staged p offset).find? q =
      if q = p then Option.merge max (staged.find? q) (some offset) else staged.find? q := by
  unfold raise
  split <;>
  · next hfind =>
    rw [Table.find?_insert]
    split
    · next heq => rw [heq, hfind]; rfl
    · rfl

/-- If all processors of the partition have finished, what is staged for it is
raised to their highest offset. -/
theorem staged_drainOne (p : Partition) :
    (drainOne m deadline s e).2.find? p =
      if p = e.1 ∧ (e.2.foldl (awaitFinished m deadline) (s.1, true)).2 = true then
        Option.merge max (s.2.find? p)
          (highest? (e.2.foldl (awaitFinished m deadline) (s.1, true)).1.workers e.2)
      else s.2.find? p := by
  unfold drainOne
  dsimp only
  generalize e.2.foldl (awaitFinished m deadline) (s.1, true) = waited
  obtain ⟨d, finished⟩ := waited
  cases finished with
  | false =>
    simp only [Bool.false_eq_true, and_false, if_false]
    split <;> rfl
  | true =>
    simp only [if_pos, and_true]
    split
    · next hhighest => rw [find?_raise, hhighest]
    · next hnone => rw [hnone, Option.merge_none_right, ite_self]

end Waits

/-- The invariant while stopped processors are waited for. -/
structure DrainWaitInv (base : List Broker.Request) (flying : Partition → List ProcessorId)
    (l : Ledger) (ps : List Partition) (held : InFlight) (d : UnorderedDispatcher)
    (staged : Offsets) : Prop extends Tracked base flying (fun _ => []) l d where
  held : d.held = held
  ledger : d.ledger = l.forget ps
  settled : ∀ p c, staged.find? p = some c → p ∈ ps ∧ Settled (period p d.journal) c

namespace DrainWaitInv

variable {ps : List Partition} {held : InFlight} {staged : Offsets}

theorem conclude (h : DrainWaitInv base flying l ps held d staged) (p : Partition)
    (result : DrainResult) (timeout : Duration) {staged' : Offsets}
    (hs : ∀ q c, staged'.find? q = some c → q ∈ ps ∧ Settled (period q d.journal) c) :
    DrainWaitInv base flying l ps held (d.tell [.drained p result timeout]) staged' :=
  ⟨h.toTracked.quiet (.tellOne _ rfl), h.held, h.ledger, hs⟩

theorem drainOne (h : DrainWaitInv base flying l ps held d staged)
    {e : Partition × List ProcessorId} (he : e.1 ∈ ps ∧ flying e.1 = e.2) (m : Meanwhile)
    (deadline : Instant) :
    DrainWaitInv base flying l ps held (drainOne m deadline (d, staged) e).1
      (drainOne m deadline (d, staged) e).2 := by
  obtain ⟨p, ids⟩ := e
  obtain ⟨hp, hflying⟩ := he
  obtain ⟨htracked, hall⟩ := h.toTracked.awaitFinished m deadline ids true
  have hworked := worked_awaitAll m deadline ids (d, true)
  have hstaged := staged_drainOne m deadline (d, staged) (p, ids)
  obtain ⟨result, htold⟩ := told_drainOne m deadline (d, staged) (p, ids)
  rw [htold]
  dsimp only at hstaged ⊢
  generalize ids.foldl (UnorderedDispatcher.awaitFinished m deadline) (d, true) = s
    at htracked hworked hall hstaged ⊢
  have hw : DrainWaitInv base flying l ps held s.1 staged := by
    refine ⟨htracked, hworked.held.trans h.held, hworked.ledger.trans h.ledger,
      fun q c hc => ?_⟩
    obtain ⟨hq, hsettled⟩ := h.settled q c hc
    exact ⟨hq, hsettled.mono (hworked.period_le q)⟩
  refine hw.conclude p result _ fun q c hc => ?_
  rw [hstaged] at hc
  split at hc
  · next hfinished =>
    obtain ⟨rfl, hfinished⟩ := hfinished
    -- The maximum is one of the two.
    rcases Option.merge_eq_or_eq Std.MaxEqOr.max_eq_or (staged.find? q)
      (highest? s.1.workers ids) with hpending | hhighest
    · exact hw.settled q c (hpending ▸ hc)
    · refine ⟨hp, (hw.tallies.tally q).settled hw.tallies.wellFormed (fun id hid q hq => ?_) ?_⟩
      · rw [hflying] at hid
        have hend := (hall hfinished).2 id hid
        rwa [isFinished, hq, Option.map_some, Option.getD_some, beq_iff_eq] at hend
      · rw [hflying, ← hhighest, hc]
  · exact hw.settled q c hc

theorem drainAll (h : DrainWaitInv base flying l ps held d staged) (m : Meanwhile)
    (deadline : Instant) (draining : List (Partition × List ProcessorId))
    (hd : ∀ e ∈ draining, e.1 ∈ ps ∧ flying e.1 = e.2) :
    DrainWaitInv base flying l ps held
      (draining.foldl (UnorderedDispatcher.drainOne m deadline) (d, staged)).1
      (draining.foldl (UnorderedDispatcher.drainOne m deadline) (d, staged)).2 := by
  induction draining generalizing d staged with
  | nil => exact h
  | cons e draining ih =>
    exact ih (h.drainOne (hd e List.mem_cons_self) m deadline) fun e' he' =>
      hd e' (List.mem_cons_of_mem e he')

end DrainWaitInv

/-- After a drain the dispatcher holds nothing of the drained partitions, and
what is staged for them is settled. -/
theorem FlightInv.drain (h : FlightInv base [] d) (m : Meanwhile) (ps : List Partition) :
    ∃ held : InFlight,
      (∀ p, held.processors.find? p =
        if p ∈ ps then none else d.held.processors.find? p) ∧
      DrainWaitInv base (flightOf d) d.ledger ps held (drain d m ps).1 (drain d m ps).2 := by
  have hstop := Tracked.stopAll h m [] ps
  have hempty := emptied_stopAll m d [] ps
  have hmem := mem_stopAll m d [] ps
  unfold UnorderedDispatcher.drain
  generalize ps.foldl (UnorderedDispatcher.stopOne m) (d, []) = s at hstop hempty hmem ⊢
  obtain ⟨d₁, draining⟩ := s
  have hdraining : ∀ e ∈ draining, e.1 ∈ ps ∧ flightOf d e.1 = e.2 := fun e he => by
    obtain ⟨hp, hfind⟩ := ((hmem e.1 e.2).mp he).resolve_left List.not_mem_nil
    exact ⟨hp, held_flightOf d e.1 e.2 hfind⟩
  refine ⟨d₁.held, hempty.held, ?_⟩
  have hstart : DrainWaitInv base (flightOf d) d.ledger ps d₁.held
      { d₁ with ledger := d₁.ledger.forget ps } (d₁.ledger.pendingOf ps) := by
    refine ⟨⟨hstop.tallies, hstop.flights, hstop.unstopped, hstop.linked⟩, rfl, ?_,
      fun p c hc => ?_⟩
    · exact congrArg (·.forget ps) hempty.ledger
    · rw [hempty.ledger, Ledger.find?_pendingOf] at hc
      split at hc
      · next hp => exact ⟨hp, hstop.tallies.backed.pending p c hc⟩
      · exact absurd hc nofun
  have hend := hstart.drainAll m
    (Duration.after d₁.now d₁.settings.revokeDrainTimeout) draining hdraining
  exact ⟨hend.toTracked.quiet (.setMonitor _ _), hend.held, hend.ledger, hend.settled⟩

/-! ## The end of a revocation -/

/-- The invariant after the commit of a revocation, before its periods end. -/
structure HandOverInv (base : List Broker.Request) (flying : Partition → List ProcessorId)
    (l : Ledger) (ps : List Partition) (held : InFlight) (d : UnorderedDispatcher) : Prop
    extends Tracked base flying (fun _ => []) (l.forget ps) d where
  held : d.held = held
  ledger : d.ledger = l.forget ps

theorem DrainWaitInv.commit {ps : List Partition} {held : InFlight} {staged : Offsets}
    (h : DrainWaitInv base flying l ps held d staged) :
    HandOverInv base flying l ps held (d.commitRevoked staged) := by
  have hforget : TalliesInv d.workers d.journal (l.forget ps) flying fun _ => [] :=
    { h.tallies with toJournalInv := h.tallies.toJournalInv.forget ps }
  rcases d.commitRevoked_cases staged with
    ⟨-, heq⟩ | ⟨accepted, e, he, -, hw, hh, hl, hj, hb⟩
  · rw [heq]
    exact ⟨⟨hforget, h.flights, h.unstopped, h.linked⟩, h.held, h.ledger⟩
  · refine ⟨⟨?_, ?_, ?_, h.linked.request he hb hj⟩, hh.trans h.held, hl.trans h.ledger⟩
    · rw [hw, hj]
      refine hforget.request he (hforget.toJournalInv.commitOther he fun p c hc => ?_)
      obtain ⟨hp, hsettled⟩ := h.settled p c hc
      exact ⟨hsettled, by rw [Ledger.flushed_forget, if_pos hp]⟩
    · rw [hh]
      exact h.flights
    · simp only [flightOf, hh, hw]
      exact h.unstopped

theorem HandOverInv.revoked {ps : List Partition} {held : InFlight} {d₀ : UnorderedDispatcher}
    (h : HandOverInv base (flightOf d₀) d₀.ledger ps held d)
    (hheld : ∀ p, held.processors.find? p =
      if p ∈ ps then none else d₀.held.processors.find? p) (n : Nat) :
    FlightInv base [] (d.tell [.revoked ps n]) := by
  refine ⟨?_, held_flightOf _, h.unstopped, h.linked⟩
  have hledger : (d.tell [.revoked ps n]).ledger = d₀.ledger.forget ps := h.ledger
  rw [hledger]
  refine h.tallies.revoked n (fun p hp => ?_) (fun p => ?_) fun p => (ite_self _).symm
  · simp [Ledger.mark, hp]
  · simp only [flightOf, Dispatcher.tell, h.held, hheld]
    split <;> rfl

theorem FlightInv.revoke (h : FlightInv base [] d) (m : Meanwhile) (ps : List Partition) :
    FlightInv base [] (d.revoke m ps) := by
  unfold Dispatcher.revoke
  split
  · exact h
  · have hbegin : FlightInv base [] (d.tell [.revoking ps]) :=
      h.quiet (.tellOne _ rfl)
    obtain ⟨held, hheld, hstaging⟩ := hbegin.drain m ps
    exact hstaging.commit.revoked hheld _

end Drain
end RecordDispatch.UnorderedDispatcher
