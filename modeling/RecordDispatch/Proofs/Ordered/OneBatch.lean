import RecordDispatch.Proofs.Ordered.Flow

/-!
# One batch at a time

A dispatcher that defers nothing has one batch of a partition at a time.  Its
events promise so (`OneBatchAtATime`): a poll returns records of a partition only
if all earlier ones are handled, and a processor starts with all records that are
not.  At every point of the journal the records that are not handled are then the
rest of one batch (`InHand`).

* A change is `Calm` if no poll returns records, no processor starts and no period
  ends.  Its events keep their promises if records are handled in order.
* `NothingDeferredInv` adds to `LanesInv` that nothing is deferred and that the
  events keep these promises.  Every call keeps it but for what a cycle does with
  polled batches.
* `TakeUpInv` is the invariant while they are taken up.  It needs to know that
  they are of different partitions, none of which is busy.
-/

namespace RecordDispatch

open Dispatch Dispatcher

namespace Dispatch

/-! ## Promises -/

/-- Of the records of a partition that polls have returned since it was last
drained, those before one batch are handled, and so are the first ones of this
batch.  The others are `limit` at most. -/
def InHand (limit : Nat) (p : Partition) (journal : List Event) : Prop :=
  ∃ earlier begun rest,
    (period p journal).handled = earlier ++ begun ∧
      (period p journal).polled = earlier ++ begun ++ rest ∧ rest.length ≤ limit ∧
        (rest = [] ∨ ∃ batches older, .polled batches :: older <:+ journal ∧
          ⟨p, begun ++ rest⟩ ∈ batches)

/-- An event deals with one batch of a partition at a time, given the journal
before it. -/
structure OneBatchAtATime (limit : Nat) (e : Event) (older : List Event) : Prop where
  /-- Records are handled in the order in which polls return them. -/
  order : ∀ p, (period p (e :: older)).handled <+: (period p (e :: older)).polled
  /-- A poll returns one batch of a partition at most, and only once all earlier
  records are handled. -/
  poll : ∀ batches, e = .polled batches → ∀ p, recordsOf p batches ≠ [] →
    (period p older).handled = (period p older).polled ∧ ⟨p, recordsOf p batches⟩ ∈ batches ∧
      (recordsOf p batches).length ≤ limit
  /-- A processor starts with all records that are not handled. -/
  start : ∀ id batch, e = .started id batch →
    (period batch.partition older).polled =
      (period batch.partition older).handled ++ batch.records

/-- Whether a poll returns records, a processor starts or a period ends. -/
def Event.isMilestone : Event → Bool
  | .polled _ => true
  | .started _ _ => true
  | .revoked _ _ => true
  | _ => false

/-- An event that is none of these returns no records, and ends no period. -/
theorem polled_next_of_isMilestone {e : Event} (h : e.isMilestone = false) (p : Partition)
    (s : Period) : (s.next p e).polled = s.polled ∧ s.Le (s.next p e) := by
  have hrevoked (ps : List Partition) (n : Nat) (heq : e = .revoked ps n) : p ∉ ps := by
    rw [heq] at h
    exact absurd h nofun
  refine ⟨s.polled_next_eq ?_ hrevoked, s.le_next hrevoked⟩
  cases e with
  | polled => exact absurd h nofun
  | _ => rfl

section

variable {limit : Nat} {p : Partition} {e : Event} {es older journal : List Event}

/-- Records of the batch in hand are handled. -/
theorem InHand.later (h : InHand limit p older)
    (hpolled : (period p (e :: older)).polled = (period p older).polled)
    (hhandled : (period p older).handled <+: (period p (e :: older)).handled)
    (horder : (period p (e :: older)).handled <+: (period p (e :: older)).polled) :
    InHand limit p (e :: older) := by
  obtain ⟨earlier, begun, rest, hdone, hall, hle, hbatch⟩ := h
  obtain ⟨more, hmore⟩ := hhandled
  obtain ⟨rest', hrest'⟩ := horder
  have hsplit : rest = more ++ rest' := by
    rw [hpolled, hall, ← hmore, hdone, List.append_assoc] at hrest'
    exact (List.append_cancel_left hrest').symm
  subst hsplit
  refine ⟨earlier, begun ++ more, rest', ?_, ?_, ?_, ?_⟩
  · rw [← hmore, hdone, List.append_assoc]
  · rw [hpolled, hall]
    simp only [List.append_assoc]
  · rw [List.length_append] at hle
    omega
  · refine hbatch.imp (fun hnil => (List.append_eq_nil_iff.mp hnil).2) ?_
    rintro ⟨batches, before, hs, hmem⟩
    exact ⟨batches, before, hs.trans (List.suffix_cons e older), by rwa [List.append_assoc]⟩

/-- If all events keep their promises, one batch of a partition is in hand. -/
theorem inHand_of_oneBatch (h : Along (OneBatchAtATime limit) journal) (p : Partition) :
    InHand limit p journal := by
  induction journal with
  | nil => exact ⟨[], [], [], rfl, rfl, Nat.zero_le _, Or.inl rfl⟩
  | cons e older ih =>
    obtain ⟨honeBatch, hbefore⟩ := along_cons.mp h
    by_cases hreturned : e.returned p = []
    · by_cases hend : ∃ ps n, e = .revoked ps n ∧ p ∈ ps
      · obtain ⟨ps, n, rfl, hp⟩ := hend
        refine ⟨[], [], [], ?_, ?_, Nat.zero_le _, Or.inl rfl⟩ <;> simp [Period.next, hp]
      · have hrevoked (ps : List Partition) (n : Nat) (heq : e = .revoked ps n) : p ∉ ps :=
          fun hp => hend ⟨ps, n, heq, hp⟩
        exact (ih hbefore).later (Period.polled_next_eq _ hreturned hrevoked)
          (Period.le_next _ hrevoked).handled (honeBatch.order p)
    · cases e with
      | polled batches =>
        obtain ⟨hhandled, hmem, hle⟩ := honeBatch.poll batches rfl p hreturned
        refine ⟨(period p older).handled, [], recordsOf p batches, ?_, ?_, hle,
          Or.inr ⟨batches, older, List.suffix_rfl, hmem⟩⟩
        · exact (List.append_nil _).symm
        · rw [List.append_nil, hhandled]
          rfl
      | _ => exact absurd rfl hreturned

/-- Events that are no milestones keep their promises if records are handled in
order at their end. -/
theorem Along.oneBatch_append (h : Along (OneBatchAtATime limit) journal)
    (hes : ∀ e ∈ es, e.isMilestone = false)
    (horder : ∀ p, (period p (es ++ journal)).handled <+: (period p (es ++ journal)).polled) :
    Along (OneBatchAtATime limit) (es ++ journal) := by
  induction es with
  | nil => exact h
  | cons e es ih =>
    have he := hes e List.mem_cons_self
    have hbefore (p : Partition) := polled_next_of_isMilestone he p (period p (es ++ journal))
    refine along_cons.mpr ⟨⟨horder, ?_, ?_⟩, ih (fun e' he' => ?_) fun p => ?_⟩
    · rintro batches rfl
      exact absurd he nofun
    · rintro id batch rfl
      exact absurd he nofun
    · exact hes e' (List.mem_cons_of_mem e he')
    · have hlater := horder p
      rw [List.cons_append, period_cons, (hbefore p).1] at hlater
      exact (hbefore p).2.handled.trans hlater

end

theorem Event.isMilestone_of_isMinor {e : Event} (h : e.isMinor = true) :
    e.isMilestone = false := by
  cases e with
  | polled | started | revoked => exact absurd h nofun
  | _ => rfl

theorem Event.isMilestone_of_request? {e : Event} {r : Broker.Request} (h : e.request? = some r) :
    e.isMilestone = false := by
  cases e with
  | polled | started | revoked => exact absurd h nofun
  | _ => rfl

end Dispatch

/-! ## Changes without milestones -/

namespace Dispatcher

variable {ω : Type}

/-- In between no poll returns records, no processor starts and no period
ends. -/
abbrev Calm (d d' : Dispatcher ω) : Prop :=
  Tells (fun e => e.isMilestone = false) d d'

namespace Calm

theorem ofMinor {d d' : Dispatcher ω} (h : Tells (fun e => e.isMinor = true) d d') :
    Calm d d' := by
  obtain ⟨es, hj, hes⟩ := h
  exact ⟨es, hj, fun e he => Event.isMilestone_of_isMinor (hes e he)⟩

theorem quiet {d d' : Dispatcher ω} (h : Quiet d d') : Calm d d' := by
  obtain ⟨es, hj, hes⟩ := h.journal
  exact ofMinor ⟨es, hj, fun e he => Event.isMinor_of_isQuiet (hes e he)⟩

theorem work (d : Dispatcher ω) (steps : List Nat) : Calm d (d.work steps) :=
  Tells.work (fun _ => rfl) d steps

theorem commit (d : Dispatcher ω) (forced : Bool) : Calm d (d.commit forced) := by
  rcases d.commit_cases forced with heq | ⟨_, e, he, -, -, -, hj, -⟩
  · rw [heq]
    exact .refl d
  · exact ⟨[e], hj, by simpa using Event.isMilestone_of_request? he⟩

theorem commitRevoked (d : Dispatcher ω) (offsets : Offsets) :
    Calm d (d.commitRevoked offsets) := by
  rcases d.commitRevoked_cases offsets with ⟨-, heq⟩ | ⟨_, e, he, -, -, -, -, hj, -⟩
  · rw [heq]
    exact .refl d
  · exact ⟨[e], hj, by simpa using Event.isMilestone_of_request? he⟩

/-- Every event in between keeps its promises if records are handled in order at
the end. -/
theorem oneBatch {limit : Nat} {d d' : Dispatcher ω} (hc : Calm d d')
    (h : Along (OneBatchAtATime limit) d.journal)
    (horder : ∀ p, (period p d'.journal).handled <+: (period p d'.journal).polled) :
    Along (OneBatchAtATime limit) d'.journal := by
  obtain ⟨es, hj, hes⟩ := hc
  rw [hj] at horder ⊢
  exact h.oneBatch_append hes horder

end Calm
end Dispatcher

namespace OrderedDispatcher

variable {base : List Broker.Request} {limit : Nat} {d d' : OrderedDispatcher}

/-! ## Dispatchers that defer nothing -/

/-- Nothing is deferred, and the events are of one batch at a time. -/
structure NothingDeferredInv (base : List Broker.Request) (limit : Nat)
    (d : OrderedDispatcher) : Prop
    extends LanesInv base [] d where
  undeferred : ∀ p, d.held.deferred.find? p = none
  oneBatch : Along (OneBatchAtATime limit) d.journal

namespace NothingDeferredInv

theorem calm (h : NothingDeferredInv base limit d) (hs : LanesInv base [] d')
    (hd : ∀ p, d'.held.deferred.find? p = none)
    (ht : Calm d d') : NothingDeferredInv base limit d' := by
  refine ⟨hs, hd, Calm.oneBatch ht h.oneBatch fun p => ?_⟩
  exact (hs.accounts.account p).polled_starts_with_handled

end NothingDeferredInv

theorem calm_harvest (d : OrderedDispatcher) (m : Meanwhile) : Calm d (harvest d m).1 := by
  refine foldl_rel .refl .trans Prod.fst (fun s e => ?_) d.held.active.entries (d, [])
  have hread : Calm s.1 ((s.1.pass m (.completion e.2)).pass m (.progress e.2)) :=
    (Calm.work s.1 _).trans (Calm.work _ _)
  unfold harvestOne
  dsimp only
  split
  · refine hread.trans (.tell _ fun e he => ?_)
    obtain ⟨e, -, rfl⟩ := List.mem_map.mp he
    rfl
  · exact hread

namespace NothingDeferredInv

theorem commit (h : NothingDeferredInv base limit d) (forced : Bool) :
    NothingDeferredInv base limit (d.commit forced) := by
  refine h.calm (h.toLanesInv.commit forced) ?_ (.commit d forced)
  exact h.undeferred

theorem harvest (h : NothingDeferredInv base limit d) (m : Meanwhile) :
    NothingDeferredInv base limit (harvest d m).1 := by
  refine h.calm (h.toLanesInv.harvest m).lanesInv ?_ (calm_harvest d m)
  rw [held_harvest]
  exact h.undeferred

/-- The period of a partition ends once its drain has made its commit. -/
theorem revoke (h : NothingDeferredInv base limit d) (m : Meanwhile) (ps : List Partition) :
    NothingDeferredInv base limit (d.revoke m ps) := by
  refine ⟨h.toLanesInv.revoke m ps, fun p => ?_, ?_⟩
  · rw [(held_revoke d m ps p).2, h.undeferred, ite_self]
  · unfold Dispatcher.revoke
    split
    · exact h.oneBatch
    · have hbegin : LanesInv base [] (d.tell [.revoking ps]) := h.toLanesInv.quiet (.tellOne _ rfl)
      obtain ⟨held, -, -, hstaging⟩ := hbegin.drain m ps
      have hover := hstaging.commit fun _ => rfl
      have horder (p : Partition) := (hover.accounts.account p).polled_starts_with_handled
      have hbegan : Calm d (d.tell [.revoking ps]) := .tellOne d rfl
      have hdrained := hbegan.trans (Calm.ofMinor (tells_drain (d.tell [.revoking ps]) m ps))
      have hcommitted :=
        hdrained.trans (Calm.commitRevoked _ (drain (d.tell [.revoking ps]) m ps).2)
      refine along_cons.mpr ⟨⟨fun p => ?_, nofun, nofun⟩, ?_⟩
      · simp only [period_cons, Period.next]
        split
        · exact List.nil_prefix
        · exact horder p
      · exact Calm.oneBatch hcommitted h.oneBatch horder

end NothingDeferredInv

theorem kept_nothingDeferredInv (base : List Broker.Request) (limit : Nat) :
    Kept (NothingDeferredInv base limit) where
  quiet h hq := h.calm (h.toLanesInv.quiet hq) (fun p => hq.held ▸ h.undeferred p) (.quiet hq)
  work steps h := h.calm (h.toLanesInv.work steps) h.undeferred (.work _ steps)
  revoke m ps h := h.revoke m ps

/-! ## Taking up what a poll returns -/

/-- All polled records of a partition are handled if it has no active
processor. -/
theorem LanesInv.handled_of_idle (h : LanesInv base [] d) {p : Partition}
    (hidle : d.held.active.find? p = none) :
    (period p d.journal).handled = (period p d.journal).polled := by
  have hnone : d.held.deferred.find? p = none := by
    cases hfind : d.held.deferred.find? p with
    | none => rfl
    | some batch =>
      have hbusy := (h.deferred p batch hfind).2
      rw [Table.contains, hidle] at hbusy
      cases hbusy
  have hbalance := (h.accounts.account p).balance
  simpa [share, deferredRecords, hidle, hnone, recordsOf] using hbalance

/-- The invariant while the batches of a poll are taken up.  Those to come are of
different partitions, none of which is busy. -/
structure TakeUpInv (base : List Broker.Request) (limit : Nat) (incoming : List Batch)
    (d : OrderedDispatcher) : Prop extends LanesInv base incoming d where
  undeferred : ∀ p, d.held.deferred.find? p = none
  oneBatch : Along (OneBatchAtATime limit) d.journal
  distinct : (incoming.map (·.partition)).Nodup
  idle : ∀ batch ∈ incoming, d.held.active.find? batch.partition = none

/-- A poll returns batches of different partitions, none of which is busy. -/
theorem NothingDeferredInv.polled (h : NothingDeferredInv base limit d) {batches : List Batch}
    (hdistinct : (batches.map (·.partition)).Nodup)
    (hidle : ∀ batch ∈ batches, d.held.active.find? batch.partition = none)
    (hsize : ∀ batch ∈ batches, batch.records.length ≤ limit) :
    TakeUpInv base limit batches (d.tell [.polled batches]) := by
  refine ⟨h.toLanesInv.polled batches, h.undeferred, along_cons.mpr ⟨⟨fun p => ?_, ?_, nofun⟩,
    h.oneBatch⟩, hdistinct, hidle⟩
  · have hbefore := (h.accounts.account p).polled_starts_with_handled
    exact hbefore.trans (List.prefix_append _ _)
  · rintro _ ⟨⟩ p hsome
    have hp : p ∈ batches.map (·.partition) :=
      Decidable.byContradiction fun hp => hsome (recordsOf_eq_nil hp)
    obtain ⟨batch, hbatch, rfl⟩ := List.mem_map.mp hp
    rw [recordsOf_of_mem hdistinct hbatch]
    exact ⟨h.handled_of_idle (hidle batch hbatch), hbatch, hsize batch hbatch⟩

namespace TakeUpInv

variable {incoming : List Batch} {batch : Batch}

/-- A processor starts with all records of its partition that are not handled. -/
theorem start (h : TakeUpInv base limit (batch :: incoming) d) :
    TakeUpInv base limit incoming (start d batch) := by
  have hidle := h.idle batch List.mem_cons_self
  have hdistinct := List.nodup_cons.mp h.distinct
  have hlanesInv := h.toLanesInv.start hidle
  refine ⟨hlanesInv, h.undeferred, ?_, hdistinct.2, fun later hlater => ?_⟩
  · have hbalance := (h.accounts.account batch.partition).balance
    simp only [share, hidle, Workers.upcomingOf_none, List.append_nil, deferredRecords,
      h.undeferred, Option.map_none, Option.getD_none, List.nil_append, recordsOf_cons, if_pos,
      recordsOf_eq_nil hdistinct.1] at hbalance
    have hstarted :
        Along (OneBatchAtATime limit) (.started d.workers.nextId batch :: d.journal) := by
      refine along_cons.mpr ⟨⟨fun p => ?_, by simp, fun id batch' heq => ?_⟩, h.oneBatch⟩
      · have hbefore := (h.accounts.account p).polled_starts_with_handled
        rw [period_cons, Period.next]
        split <;> exact hbefore
      · obtain ⟨-, rfl⟩ := Event.started.inj heq
        exact hbalance.symm
    have horder (p : Partition) := (hlanesInv.accounts.account p).polled_starts_with_handled
    rw [journal_start] at horder ⊢
    refine hstarted.oneBatch_append (fun e he => ?_) horder
    rcases List.mem_append.mp he with he | he
    · obtain ⟨e, -, rfl⟩ := List.mem_map.mp (List.mem_reverse.mp he)
      rfl
    · obtain ⟨e, -, rfl⟩ := List.mem_map.mp he
      rfl
  · have hne : later.partition ≠ batch.partition := fun heq =>
      hdistinct.1 (List.mem_map.mpr ⟨later, hlater, heq⟩)
    rw [active_start, Table.find?_insert, if_neg hne]
    exact h.idle later (List.mem_cons_of_mem batch hlater)

theorem receive (h : TakeUpInv base limit (batch :: incoming) d) :
    TakeUpInv base limit incoming (receive d batch) := by
  unfold OrderedDispatcher.receive
  split
  · next hempty =>
    exact ⟨h.skip hempty, h.undeferred, h.oneBatch, (List.nodup_cons.mp h.distinct).2,
      fun later hlater => h.idle later (List.mem_cons_of_mem batch hlater)⟩
  · have hnoted : TakeUpInv base limit (batch :: incoming) (d.noteTopic batch) :=
      ⟨h.toLanesInv.quiet (.noteTopic d batch), h.undeferred, h.oneBatch, h.distinct, h.idle⟩
    have hidle := hnoted.idle batch List.mem_cons_self
    dsimp only
    rw [Table.contains, hidle]
    exact hnoted.start

theorem receiveAll {before : List Batch} (h : TakeUpInv base limit (before ++ incoming) d) :
    TakeUpInv base limit incoming (before.foldl OrderedDispatcher.receive d) := by
  induction before generalizing d with
  | nil => exact h
  | cons first before ih => exact ih h.receive

end TakeUpInv

/-- With nothing deferred no processor starts when others are forgotten. -/
theorem retireAll_of_undeferred (hd : ∀ p, d.held.deferred.find? p = none)
    (done idle : List Partition) :
    (done.foldl retireOne (d, idle)).1.journal = d.journal ∧
      ∀ p, (done.foldl retireOne (d, idle)).1.held.deferred.find? p = none := by
  induction done generalizing d idle with
  | nil => exact ⟨rfl, hd⟩
  | cons p done ih =>
    have hstep : retireOne (d, idle) p =
        (d.hold { d.held with active := d.held.active.erase p }, idle ++ [p]) := by
      unfold retireOne
      dsimp only [Dispatcher.hold]
      rw [hd p]
    rw [List.foldl_cons, hstep]
    exact ih (d := d.hold { d.held with active := d.held.active.erase p }) hd _

theorem calm_takeUp (d : OrderedDispatcher) (m : Meanwhile) (batches : List Batch) :
    Calm (forgetDone d m batches).1 (takeUp d m batches).1 := by
  have hresumed := Quiet.withGate (forgetDone d m batches).1
    (Gate.commitRequests_resume _ (forgetDone d m batches).2)
  exact Tells.trans (Calm.quiet ((hresumed.trans (.tellOne _ rfl)).trans (.report _ rfl)))
    (Calm.commit _ false)

theorem TakeUpInv.takeUp {batches : List Batch} (hs : LanesInv base [] d)
    (h : TakeUpInv base limit batches (d.tell [.polled batches])) (m : Meanwhile) :
    NothingDeferredInv base limit (takeUp d m batches).1 := by
  have hreceived : TakeUpInv base limit []
      (batches.foldl OrderedDispatcher.receive (d.tell [.polled batches])) :=
    TakeUpInv.receiveAll (by rwa [List.append_nil])
  have hready : NothingDeferredInv base limit
      (batches.foldl OrderedDispatcher.receive (d.tell [.polled batches])) :=
    ⟨hreceived.toLanesInv, hreceived.undeferred, hreceived.oneBatch⟩
  have hharvested := hready.harvest m
  obtain ⟨hjournal, hundeferred⟩ := retireAll_of_undeferred hharvested.undeferred
    (OrderedDispatcher.harvest (batches.foldl OrderedDispatcher.receive
      (d.tell [.polled batches])) m).2 []
  have hforgotten : Calm _ (forgetDone d m batches).1 := Tells.ofSilent hjournal
  refine hharvested.calm (hs.takeUp m) (fun p => ?_) (hforgotten.trans (calm_takeUp d m batches))
  rw [held_takeUp]
  exact hundeferred p

end OrderedDispatcher
end RecordDispatch
