import RecordDispatch.Proofs.Processor.Interleaved

/-!
# What is seen of a shared processor

A shared processor stands for a `Processor` (`view`).  A record counts as
handled there once its offset is written, so that the next offset is at every
moment the one that can be read (`nextOffset_view`).  A request to stop counts
once the processor does not wait for a worker any more: before that the worker
and the one who stops it compete for the processor, and the first of them
decides.

Each access of the worker or of someone who stops it is then a list of the
steps of that processor (`Act`), most often none (`view_step`), and so is
a whole run (`view_run`).
-/

namespace RecordDispatch.Processor

/-! ## Steps of a processor by itself -/

/-- The steps of a processor. -/
inductive Act
  | claim
  | advance
  | stop

/-- A step of a processor, with what it tells. -/
def act (h : Handler) (p : Processor) : Act → Processor × List Event
  | .claim => (p.claim, [])
  | .advance => p.advance h
  | .stop => (p.stop, [])

/-- Steps of a processor in order. -/
def acts (h : Handler) (p : Processor) : List Act → Processor × List Event
  | [] => (p, [])
  | a :: as =>
    let (p, events) := p.act h a
    let (p, more) := p.acts h as
    (p, events ++ more)

theorem acts_append (h : Handler) (p : Processor) (as bs : List Act) :
    p.acts h (as ++ bs) =
      (((p.acts h as).1.acts h bs).1, (p.acts h as).2 ++ ((p.acts h as).1.acts h bs).2) := by
  induction as generalizing p with
  | nil => rfl
  | cons a as ih => simp [acts, ih]

/-- What steps tell are the records that they handle. -/
theorem handled_acts (h : Handler) (p : Processor) (as : List Act) :
    (p.acts h as).1.handled = p.handled ++ (p.acts h as).2.filterMap Event.handled? := by
  induction as generalizing p with
  | nil => exact (List.append_nil _).symm
  | cons a as ih =>
    have hstep : (p.act h a).1.handled =
        p.handled ++ (p.act h a).2.filterMap Event.handled? := by
      cases a with
      | claim => simp [act, handled]
      | stop => simp [act, handled]
      | advance =>
        rcases p.advance_cases h with heq | ⟨r?, hs, he⟩
        · simp [act, heq]
        · exact hs.handled.trans (congrArg (p.handled ++ ·) he.symm)
    simp only [acts, ih, hstep, List.filterMap_append, List.append_assoc]

/-! ## The processor that is seen -/

namespace Interleaved

variable {s : Interleaved}

/-- What is being done with the record that is taken up. -/
def triage? (h : Handler) (s : Interleaved) : Option Handler.Triage :=
  match s.worker with
  | .handling r => some (h.triage s.batch.partition r)
  | .writing r => some (h.triage s.batch.partition r)
  | _ => none

/-- The processor that a shared one stands for. -/
def view (h : Handler) (s : Interleaved) : Processor where
  batch := s.batch
  stage := s.cell.stage
  stopRequested := s.cell.stopRequested && s.cell.stage != .created
  processed := s.written.length
  current := s.triage? h

/-- The record that is taken up, if its offset is not written yet. -/
def taken (s : Interleaved) : List Record :=
  match s.worker with
  | .handling r => [r]
  | .writing r => [r]
  | _ => []

theorem AccessInv.written_append (hs : s.AccessInv) :
    s.written ++ (s.taken ++ s.left) = s.batch.records := by
  rw [← hs.records]
  unfold written taken inHand
  cases hw : s.worker with
  | writing r =>
    have hplaced := hs.placed
    simp only [Placed, hw] at hplaced
    obtain ⟨before, hbefore⟩ := List.getLast?_eq_some_iff.mp hplaced.2
    simp only [hbefore, List.dropLast_concat, List.append_assoc, List.nil_append]
  | _ => rfl

theorem AccessInv.handled_view (hs : s.AccessInv) (h : Handler) :
    (s.view h).handled = s.written := by
  rw [Processor.handled, view, ← hs.written_append]
  exact List.take_left

theorem AccessInv.upcoming_view (hs : s.AccessInv) (h : Handler) :
    (s.view h).upcoming = s.taken ++ s.left := by
  rw [Processor.upcoming, view, ← hs.written_append]
  exact List.drop_left

/-- The offset that is written is that of the processor that is seen. -/
theorem AccessInv.nextOffset_view (hs : s.AccessInv) (h : Handler) :
    (s.view h).nextOffset = s.cell.next := by
  rw [nextOffset_eq_nextAfter, hs.handled_view, hs.next]

theorem acts_cons_nil (h : Handler) (p : Processor) (a : Act) :
    (p.acts h [a]).1 = (p.act h a).1 := rfl

/-- An access of the worker, as steps of the processor that is seen. -/
theorem view_work (hs : s.AccessInv) (h : Handler) :
    ∃ as, ((s.view h).acts h as).1 = s.work.view h := by
  have hupcoming := hs.upcoming_view h
  have hplaced := hs.placed
  obtain ⟨batch, ⟨stage, stopRequested, next, count, done⟩, worker, left, stoppers, handled⟩ := s
  cases worker with
  | arriving =>
    obtain ⟨-, hstage | ⟨hstage, -⟩⟩ := hplaced
    · obtain rfl : stage = .created := hstage
      -- someone may have asked for a stop and not have come to take the processor yet
      cases stopRequested with
      | true => exact ⟨[.claim, .stop], rfl⟩
      | false => exact ⟨[.claim], rfl⟩
    · obtain rfl : stage = .stopped := hstage
      exact ⟨[], rfl⟩
  | looking =>
    obtain rfl : stage = .running := hplaced
    cases left with
    | nil => exact ⟨[], rfl⟩
    | cons r rest =>
      cases stopRequested with
      | true => exact ⟨[], rfl⟩
      | false =>
        refine ⟨[.advance], ?_⟩
        rw [acts_cons_nil, act, advance_of_not_begun h rfl hupcoming rfl rfl]
        rfl
  | writing r =>
    obtain ⟨hstage, hlast⟩ := hplaced
    obtain rfl : stage = .running := hstage
    refine ⟨[.advance], ?_⟩
    rw [acts_cons_nil, act, advance_of_begun h rfl hupcoming rfl]
    have hlength : handled.dropLast.length + 1 = handled.length := by
      rw [List.length_dropLast]
      exact Nat.sub_add_cancel (List.length_pos_of_mem (List.mem_of_getLast? hlast))
    simp only [conclude, view, work, written, triage?, hlength]
  | ending stage =>
    obtain ⟨hstage, ⟨rfl, hnone⟩ | ⟨rfl, hsome, hrequested⟩⟩ := hplaced
    · obtain rfl : _ = Stage.running := hstage
      refine ⟨[.advance], ?_⟩
      rw [acts_cons_nil, act, advance_of_upcoming_nil h rfl (hupcoming.trans hnone)]
      rfl
    · obtain rfl : _ = Stage.running := hstage
      obtain rfl : stopRequested = true := hrequested
      obtain ⟨r, rest, rfl⟩ := List.exists_cons_of_ne_nil hsome
      refine ⟨[.advance], ?_⟩
      rw [acts_cons_nil, act, advance_of_stopRequested h rfl hupcoming rfl rfl]
      rfl
  | handling r =>
    refine ⟨[], ?_⟩
    simp [acts, view, work, written, triage?]
  | _ => exact ⟨[], rfl⟩

/-- An access of someone who stops the processor. -/
theorem view_stopper (hs : s.AccessInv) (h : Handler) (i : Nat) :
    ∃ as, ((s.view h).acts h as).1 = (s.step (.stopper i)).view h := by
  simp only [step]
  split
  · exact ⟨[], rfl⟩
  · next t hi =>
    have ht := hs.stoppers t (List.mem_of_getElem? hi)
    clear hi
    obtain ⟨batch, ⟨stage, stopRequested, next, count, done⟩, worker, left, stoppers, handled⟩ := s
    cases t with
    | requesting =>
      cases stage with
      | created => exact ⟨[], by simp [acts, view, written, triage?, Stopper.step]⟩
      | _ => exact ⟨[.stop], rfl⟩
    | taking =>
      obtain rfl : stopRequested = true := ht
      cases stage with
      | created => exact ⟨[.stop], rfl⟩
      | _ => exact ⟨[], rfl⟩
    | ending =>
      obtain rfl : stage = .stopped := ht.1
      exact ⟨[], rfl⟩
    | _ => exact ⟨[], rfl⟩

theorem view_step (hs : s.AccessInv) (h : Handler) (t : Turn) :
    ∃ as, ((s.view h).acts h as).1 = (s.step t).view h := by
  cases t with
  | worker => exact view_work hs h
  | call => exact ⟨[], rfl⟩
  | stopper i => exact view_stopper hs h i

theorem view_run (hs : s.AccessInv) (h : Handler) (turns : List Turn) :
    ∃ as, ((s.view h).acts h as).1 = (s.run turns).view h := by
  induction turns generalizing s with
  | nil => exact ⟨[], rfl⟩
  | cons t turns ih =>
    obtain ⟨as, has⟩ := view_step hs h t
    obtain ⟨bs, hbs⟩ := ih (hs.step t)
    refine ⟨as ++ bs, ?_⟩
    rw [acts_append, has]
    exact hbs

end Interleaved
end RecordDispatch.Processor
