import RecordDispatch.Proofs.Ordered.Account
import RecordDispatch.Proofs.Ordered.EventPromises

/-!
# The accounts of all partitions in ordered dispatch

`AccountsInv` is the invariant of ordered dispatch.  It speaks of workers, of
a journal, of a ledger and of what the dispatcher holds of each partition, and
each lemma here says that one kind of change keeps it: workers move, a poll
returns batches, a processor starts or is forgotten, an offset is recorded,
a commit is made, a revocation ends.

What is held is given by a function and not read from a dispatcher.  A drain
takes the work of partitions out of the dispatcher before the journal says that
their period is over; in between the account of what was held goes on.
-/

namespace RecordDispatch.Dispatch

/-- Workers, journal, ledger and the work that is held agree. -/
structure AccountsInv (w : Workers) (journal : List Event) (l : Ledger)
    (shares : Partition → Share) : Prop extends JournalInv w journal l where
  account : ∀ p, Account w (period p journal) p (shares p)
  promises : Along KeepsPromise journal
  retired : ∀ id, Retired journal id → w.Done id

namespace AccountsInv

variable {w w' : Workers} {journal : List Event} {l : Ledger} {shares shares' : Partition → Share}

/-! ## Workers -/

/-- A task takes a step. -/
theorem step (h : AccountsInv w journal l shares) (i : Nat) :
    AccountsInv (w.step i).1 (((w.step i).2.map Event.workers).reverse ++ journal) l shares := by
  have hretired (id : ProcessorId)
      (hr : Retired (((w.step i).2.map Event.workers).reverse ++ journal) id) :
      (w.step i).1.Done id := by
    have hold := retired_of_append hr fun e he => (Event.isPlain_workers he).2
    exact (h.retired id hold).later (w.step_later i)
  cases w.step_cases i with
  | none hp he =>
    refine ⟨h.toJournalInv.step i, fun p => ?_, h.promises.keepsPromise_workers (by simp [he]),
      hretired⟩
    rw [period_append_workers, he]
    exact (h.account p).congr fun id _ => Workers.sameProgress_of_eq (hp id)
  | one id q q' r? hq hs hp he =>
    refine ⟨h.toJournalInv.step i, fun p => ?_,
      h.promises.keepsPromise_workers fun x hx hr => ?_, hretired⟩
    · rw [period_append_workers, he]
      exact (h.account p).step hq hs hp
    · -- The processor moves, so it is not done, and so it is not retired.
      rw [he] at hx
      obtain ⟨r, -, rfl⟩ := List.mem_map.mp hx
      obtain ⟨q₀, hq₀, hd⟩ := h.retired id hr
      obtain rfl := Option.some.inj (hq.symm.trans hq₀)
      rw [hs.isDone_eq_false] at hd
      exact Bool.false_ne_true hd

/-- A processor is asked to stop. -/
theorem stop (h : AccountsInv w journal l shares) (id : ProcessorId) :
    AccountsInv (w.stop id) journal l shares :=
  ⟨h.toJournalInv.stop id, fun p => (h.account p).stop id, h.promises,
    fun j hr => (h.retired j hr).stop id⟩

/-! ## Events -/

theorem cons_quiet (h : AccountsInv w journal l shares) {e : Event} (he : e.isQuiet = true) :
    AccountsInv w (e :: journal) l shares := by
  have hplain := Event.isPlain_of_isQuiet he
  refine ⟨h.toJournalInv.cons hplain, fun p => ?_,
    along_cons.mpr ⟨keepsPromise_of_isQuiet he journal, h.promises⟩, fun id hr => ?_⟩
  · rw [period_cons, Period.next_of_isQuiet he]
    exact h.account p
  · exact h.retired id (retired_of_cons_of_ne hr hplain.2)

theorem append_quiet (h : AccountsInv w journal l shares) {es : List Event}
    (hes : ∀ e ∈ es, e.isQuiet = true) : AccountsInv w (es ++ journal) l shares := by
  induction es with
  | nil => exact h
  | cons e es ih =>
    exact (ih fun e' he' => hes e' (List.mem_cons_of_mem e he')).cons_quiet
      (hes e List.mem_cons_self)

/-- A poll returns batches, and their records wait. -/
theorem poll (h : AccountsInv w journal l shares) (batches : List Batch) :
    AccountsInv w (.polled batches :: journal) l fun p =>
      { shares p with waiting := (shares p).waiting ++ recordsOf p batches } :=
  ⟨h.toJournalInv.cons ⟨rfl, nofun⟩, fun p => (h.account p).poll (recordsOf p batches),
    along_cons.mpr ⟨keepsPromise_of_none journal rfl nofun nofun, h.promises⟩,
    fun id hr => h.retired id (retired_of_cons_of_ne hr nofun)⟩

/-- A processor starts with records that wait. -/
theorem start (h : AccountsInv w journal l shares) {batch : Batch} {rest : List Record}
    (hw : w.Adds w' [batch]) (hidle : (shares batch.partition).processor = none)
    (hwaiting : (shares batch.partition).waiting = batch.records ++ rest)
    (hshares : ∀ p, shares' p = if p = batch.partition then
      { shares p with processor := some w.nextId, waiting := rest } else shares p) :
    AccountsInv w' (.started w.nextId batch :: journal) l shares' := by
  refine ⟨(h.toJournalInv.add hw).cons ⟨rfl, nofun⟩, fun p => ?_,
    along_cons.mpr ⟨⟨fun id b heq => ?_, nofun, nofun⟩, h.promises⟩, fun id hr => ?_⟩
  · rw [hshares, period_cons, Period.next]
    by_cases hp : p = batch.partition
    · subst hp
      rw [if_pos rfl, if_pos rfl]
      exact (h.account batch.partition).start hw hidle hwaiting rfl
    · rw [if_neg hp, if_neg (Ne.symm hp)]
      exact (h.account p).add hw
  · obtain ⟨-, rfl⟩ := Event.started.inj heq
    have hbalance := (h.account batch.partition).balance
    rw [hidle, hwaiting, Workers.upcomingOf_none, List.append_nil, ← List.append_assoc]
      at hbalance
    exact ⟨_, rest, hbalance⟩
  · exact (h.retired id (retired_of_cons_of_ne hr nofun)).add hw

/-- A processor is forgotten that was not asked to stop and is done, once its
progress is recorded. -/
theorem retire (h : AccountsInv w journal l shares) {p : Partition} {id : ProcessorId}
    {q : Processor} (hactive : (shares p).processor = some id) (hq : w.processor? id = some q)
    (hdone : q.isDone = true) (hstop : w.Unstopped id)
    (hmark : ∀ c, q.committable? = some c → ∃ c', (shares p).mark = some c' ∧ c ≤ c')
    (hshares : ∀ p', shares' p' = if p' = p then
      { shares p with processor := none } else shares p') :
    AccountsInv w journal l shares' := by
  refine { h with account := fun p' => ?_ }
  rw [hshares]
  split
  · next heq =>
    subst heq
    have hw := h.wellFormed id q hq
    exact (h.account p').retire hactive hq (hw.finished hdone (hstop q hq)) hw fun hpos =>
      hmark q.nextOffset (Processor.committable?_eq_some.mpr ⟨hpos, rfl⟩)
  · exact h.account p'

/-! ## Offsets -/

/-- A settled offset is recorded. -/
theorem record (h : AccountsInv w journal l shares) (hmark : ∀ q, (shares q).mark = l.mark q)
    {p : Partition} {next : Int} (hn : Settled (period p journal) next) :
    AccountsInv w journal (l.record p next) fun q =>
      { shares q with mark := (l.record p next).mark q } := by
  refine { h with toJournalInv := h.toJournalInv.record hn, account := fun q => ?_ }
  refine (h.account q).raise fun c hc => ?_
  rw [hmark] at hc
  exact Ledger.mark_le_record h.backed.ascending p q next hc

/-- A commit is requested, and the ledger is brought up to date. -/
theorem request (h : AccountsInv w journal l shares) {l' : Ledger} {e : Event}
    {r : Broker.Request} (he : e.request? = some r) (hg : JournalInv w (e :: journal) l') :
    AccountsInv w (e :: journal) l' shares := by
  refine ⟨hg, fun p => ?_, along_cons.mpr ⟨keepsPromise_of_request? he journal, h.promises⟩,
    fun id hr => ?_⟩
  · rw [period_cons, Period.next_of_request? he]
    exact h.account p
  · refine h.retired id (retired_of_cons_of_ne hr fun ps n heq => ?_)
    rw [heq] at he
    exact absurd he nofun

/-! ## Revocations -/

/-- The periods of partitions end. -/
theorem revoked (h : AccountsInv w journal l shares) {ps : List Partition} (n : Nat)
    (hforgotten : ∀ p ∈ ps, l.mark p = none)
    (hdone : ∀ p ∈ ps, InTime p journal → ∀ id, (shares p).processor = some id → w.Done id)
    (hover : ∀ p ∈ ps, InTime p journal → Accepted journal → HandedOver p journal)
    (hshares : ∀ p, shares' p = if p ∈ ps then {} else shares p) :
    AccountsInv w (.revoked ps n :: journal) l shares' := by
  refine ⟨h.toJournalInv.revoked n hforgotten, fun p => ?_,
    along_cons.mpr ⟨⟨nofun, fun ps' n' heq => ?_, nofun⟩, h.promises⟩, fun id hr => ?_⟩
  · rw [hshares, period_cons, Period.next]
    split
    · exact account_nothing w p
    · exact h.account p
  · obtain ⟨rfl, -⟩ := Event.revoked.inj heq
    exact hover
  · rcases retired_of_cons hr with hr | ⟨ps', n', heq, p, hp, hintime, hid⟩
    · exact h.retired id hr
    · obtain ⟨rfl, -⟩ := Event.revoked.inj heq
      obtain ⟨q, hq, -, hactive | hf⟩ := (h.account p).started id hid
      · exact hdone p hp hintime id hactive
      · exact ⟨q, hq, Processor.isDone_of_finished hf⟩

end AccountsInv
end RecordDispatch.Dispatch
