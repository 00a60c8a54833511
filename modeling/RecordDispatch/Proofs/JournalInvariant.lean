import RecordDispatch.Proofs.Ledger

/-!
# What both ways of dispatching keep

`JournalInv` says of workers, a journal and a ledger what does not depend on how
records are dispatched: processors are well formed, the ledger is backed by the
journal, and every commit in the journal was settled.  Each lemma is about one
kind of change.
-/

namespace RecordDispatch.Dispatch

/-- The event neither ends a period nor stands for a commit. -/
def Event.IsPlain (e : Event) : Prop :=
  e.request? = none ∧ ∀ ps n, e ≠ .revoked ps n

theorem Event.isPlain_of_isQuiet {e : Event} (h : e.isQuiet = true) : e.IsPlain := by
  refine ⟨Event.request?_of_isQuiet h, fun ps n heq => ?_⟩
  rw [heq] at h
  exact absurd h Bool.false_ne_true

theorem Event.isPlain_workers {es : List Workers.Event} {e : Event}
    (he : e ∈ (es.map Event.workers).reverse) : e.IsPlain := by
  obtain ⟨e, -, rfl⟩ := List.mem_map.mp (List.mem_reverse.mp he)
  exact ⟨rfl, nofun⟩

/-- Workers, journal and ledger agree, however records are dispatched. -/
structure JournalInv (w : Workers) (journal : List Event) (l : Ledger) : Prop where
  wellFormed : ∀ id q, w.processor? id = some q → q.WellFormed
  backed : Backed l journal
  commits : Along CommitSettled journal

/-- Nothing has happened. -/
theorem journalInv_ofSize (size : Nat) (handler : Handler) :
    JournalInv (Workers.ofSize size handler) [] {} :=
  ⟨fun id q hq => absurd hq (by simp [Workers.ofSize, Workers.processor?]), backed_empty _,
    along_nil _⟩

namespace JournalInv

variable {w w' : Workers} {journal : List Event} {l : Ledger}

/-! ## Events -/

theorem cons (h : JournalInv w journal l) {e : Event} (he : e.IsPlain) :
    JournalInv w (e :: journal) l :=
  ⟨h.wellFormed, h.backed.cons he.1 he.2,
    along_cons.mpr ⟨commitSettled_of_none he.1 journal, h.commits⟩⟩

theorem append (h : JournalInv w journal l) {es : List Event} (hes : ∀ e ∈ es, e.IsPlain) :
    JournalInv w (es ++ journal) l := by
  induction es with
  | nil => exact h
  | cons e es ih =>
    exact (ih fun e' he' => hes e' (List.mem_cons_of_mem e he')).cons (hes e List.mem_cons_self)

/-! ## Workers -/

/-- A task takes a step. -/
theorem step (h : JournalInv w journal l) (i : Nat) :
    JournalInv (w.step i).1 (((w.step i).2.map Event.workers).reverse ++ journal) l := by
  have hevents : JournalInv w (((w.step i).2.map Event.workers).reverse ++ journal) l :=
    h.append fun e he => Event.isPlain_workers he
  exact { hevents with wellFormed := Workers.WellFormed.step h.wellFormed i }

/-- A processor is asked to stop. -/
theorem stop (h : JournalInv w journal l) (id : ProcessorId) : JournalInv (w.stop id) journal l :=
  { h with wellFormed := Workers.WellFormed.stop h.wellFormed id }

/-- Processors are added. -/
theorem add (h : JournalInv w journal l) {batches : List Batch} (hw : w.Adds w' batches) :
    JournalInv w' journal l := by
  refine { h with wellFormed := fun j q hq => ?_ }
  rcases hw.cases hq with hq | ⟨batch, -, rfl⟩
  · exact h.wellFormed j q hq
  · exact Processor.wellFormed_new batch

/-! ## Offsets -/

/-- A settled offset is recorded. -/
theorem record (h : JournalInv w journal l) {p : Partition} {next : Int}
    (hn : Settled (period p journal) next) : JournalInv w journal (l.record p next) :=
  { h with backed := h.backed.record hn }

/-- All pending offsets are committed. -/
theorem commit (h : JournalInv w journal l) {e : Event} {mode : CommitMode} {accepted : Bool}
    (he : e.request? = some (.commit mode l.pending accepted)) :
    JournalInv w (e :: journal) (l.afterCommit accepted) := by
  refine ⟨h.wellFormed, h.backed.commit he, along_cons.mpr ⟨?_, h.commits⟩⟩
  intro m offsets a hr p c hc
  obtain ⟨-, rfl, -⟩ := Broker.Request.commit.inj (Option.some.inj (he.symm.trans hr))
  exact h.backed.pending p c hc

/-- Settled offsets of partitions are committed that the ledger does not
know. -/
theorem commitOther (h : JournalInv w journal l) {e : Event} {mode : CommitMode}
    {offsets : Offsets} {accepted : Bool}
    (he : e.request? = some (.commit mode offsets accepted))
    (hoffsets : ∀ p c, offsets.find? p = some c →
      Settled (period p journal) c ∧ l.flushed.find? p = none) :
    JournalInv w (e :: journal) l := by
  refine ⟨h.wellFormed, h.backed.commitOther he fun p c hc => (hoffsets p c hc).2,
    along_cons.mpr ⟨?_, h.commits⟩⟩
  intro m offsets' a hr p c hc
  obtain ⟨-, rfl, -⟩ := Broker.Request.commit.inj (Option.some.inj (he.symm.trans hr))
  exact (hoffsets p c hc).1

/-! ## Revocations -/

theorem forget (h : JournalInv w journal l) (ps : List Partition) :
    JournalInv w journal (l.forget ps) :=
  { h with backed := h.backed.forget ps }

/-- The periods of partitions end that the ledger does not know. -/
theorem revoked (h : JournalInv w journal l) {ps : List Partition} (n : Nat)
    (hf : ∀ p ∈ ps, l.mark p = none) : JournalInv w (.revoked ps n :: journal) l :=
  ⟨h.wellFormed, h.backed.revoked n hf,
    along_cons.mpr ⟨commitSettled_of_none rfl journal, h.commits⟩⟩

end JournalInv
end RecordDispatch.Dispatch
