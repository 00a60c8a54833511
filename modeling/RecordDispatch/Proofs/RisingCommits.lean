import RecordDispatch.Proofs.DrainSteps

/-!
# Commits that rise

`commitsOf` are the offsets that the broker has accepted for a partition in its
present period, whether for a scheduled commit, a forced one or the one of
a revocation.  They do not fall, for none of them lies above the mark of the
ledger (`AcceptedBelowMarks`), and marks only move forward while a period lasts.

Scheduled and forced commits hand over what is pending, and that is the mark.
What a revocation hands over is computed by the drain; it has to reach the mark
(`AtLeastMarks`), and then the period of the drained partitions ends.
-/

namespace RecordDispatch

open Dispatch

namespace Dispatch

/-! ## Accepted commits in a journal -/

namespace Event

/-- The offset of a partition in a commit that the broker has accepted. -/
def committed? (p : Partition) (e : Event) : Option Int :=
  (e.request?.bind Broker.Request.committed?).bind fun c => c.2.find? p

/-- Whether the period of a partition ends. -/
def ends (p : Partition) : Event → Bool
  | .revoked ps _ => ps.contains p
  | _ => false

@[simp] theorem ends_revoked (p : Partition) (ps : List Partition) (n : Nat) :
    (Event.revoked ps n).ends p = decide (p ∈ ps) := by
  simp [ends]

theorem ends_of_isPlain {e : Event} (h : e.IsPlain) (p : Partition) : e.ends p = false := by
  cases e with
  | revoked ps n => exact absurd rfl (h.2 ps n)
  | _ => rfl

theorem ends_of_request? {e : Event} {r : Broker.Request} (h : e.request? = some r)
    (p : Partition) : e.ends p = false := by
  cases e with
  | revoked => exact absurd h nofun
  | _ => rfl

theorem committed?_of_none {e : Event} (h : e.request? = none) (p : Partition) :
    e.committed? p = none := by
  rw [committed?, h]
  rfl

theorem committed?_commit {e : Event} {mode : CommitMode} {offsets : Offsets} {accepted : Bool}
    (h : e.request? = some (.commit mode offsets accepted)) (p : Partition) :
    e.committed? p = if accepted then offsets.find? p else none := by
  rw [committed?, h]
  cases accepted <;> rfl

end Event

/-- The offsets that the broker has accepted for a partition since it was last
drained, newest first. -/
def commitsOf (p : Partition) (journal : List Event) : List Int :=
  (journal.takeWhile fun e => !e.ends p).filterMap (Event.committed? p)

variable {e : Event} {journal : List Event} {p : Partition}

theorem commitsOf_cons (h : e.ends p = false) :
    commitsOf p (e :: journal) = (e.committed? p).toList ++ commitsOf p journal := by
  unfold commitsOf
  rw [List.takeWhile_cons, h, Bool.not_false, if_pos rfl, List.filterMap_cons]
  cases e.committed? p <;> rfl

theorem commitsOf_cons_of_ends (h : e.ends p = true) : commitsOf p (e :: journal) = [] := by
  simp [commitsOf, h]

theorem commitsOf_cons_of_isPlain (h : e.IsPlain) :
    commitsOf p (e :: journal) = commitsOf p journal := by
  rw [commitsOf_cons (Event.ends_of_isPlain h p), Event.committed?_of_none h.1]
  rfl

/-! ## Marks bound what was committed -/

/-- The records of a partition that polls have returned in its present period
came in the order of their offsets. -/
def InOrder (p : Partition) (journal : List Event) : Prop :=
  (period p journal).polled.Pairwise (·.offset < ·.offset)

/-- Records that came in order did so all the time. -/
theorem InOrder.of_cons (h : InOrder p (e :: journal)) (he : e.ends p = false) :
    InOrder p journal := by
  refine h.sublist (Period.le_next _ fun ps n heq => ?_).polled.sublist
  simpa [heq] using he

/-- Of partitions whose records came in order, the broker has accepted offsets
that do not fall, at every point of a journal. -/
def NeverFalls (journal : List Event) : Prop :=
  ∀ older, older <:+ journal → ∀ p, InOrder p older → (commitsOf p older).Pairwise (· ≥ ·)

theorem neverFalls_cons :
    NeverFalls (e :: journal) ↔
      (∀ p, InOrder p (e :: journal) → (commitsOf p (e :: journal)).Pairwise (· ≥ ·)) ∧
        NeverFalls journal := by
  constructor
  · intro h
    exact ⟨h _ List.suffix_rfl, fun older hs => h older (hs.trans (List.suffix_cons e journal))⟩
  · rintro ⟨hnow, h⟩ older hs
    rcases List.suffix_cons_iff.mp hs with rfl | hs
    · exact hnow
    · exact h older hs

/-- No offset that the broker has accepted lies above the mark of its
partition. -/
structure AcceptedBelowMarks (l : Ledger) (journal : List Event) : Prop where
  ascending : l.Ascending
  reached : ∀ p, ∀ c ∈ commitsOf p journal, ∃ m, l.mark p = some m ∧ c ≤ m
  neverFalls : NeverFalls journal

/-- Offsets of partitions lie at their marks at least, if records came in
order. -/
def AtLeastMarks (l : Ledger) (journal : List Event) (ps : List Partition) (offsets : Offsets) :
    Prop :=
  ∀ p c, offsets.find? p = some c →
    p ∈ ps ∧ (InOrder p journal → ∀ m, l.mark p = some m → m ≤ c)

namespace AcceptedBelowMarks

variable {l : Ledger}

theorem nothing : AcceptedBelowMarks {} [] := by
  refine ⟨Ledger.ascending_empty, fun _ => nofun, fun older hs p _ => ?_⟩
  rw [List.suffix_nil.mp hs]
  exact .nil

/-- Most events say nothing of commits. -/
theorem cons (h : AcceptedBelowMarks l journal) (he : e.IsPlain) :
    AcceptedBelowMarks l (e :: journal) := by
  refine ⟨h.ascending, fun p c hc => ?_, neverFalls_cons.mpr ⟨fun p hp => ?_, h.neverFalls⟩⟩
  · rw [commitsOf_cons_of_isPlain he] at hc
    exact h.reached p c hc
  · rw [commitsOf_cons_of_isPlain he]
    exact h.neverFalls _ List.suffix_rfl p (hp.of_cons (Event.ends_of_isPlain he p))

theorem append (h : AcceptedBelowMarks l journal) {es : List Event} (hes : ∀ e ∈ es, e.IsPlain) :
    AcceptedBelowMarks l (es ++ journal) := by
  induction es with
  | nil => exact h
  | cons e es ih =>
    exact (ih fun e' he' => hes e' (List.mem_cons_of_mem e he')).cons (hes e List.mem_cons_self)

theorem record (h : AcceptedBelowMarks l journal) (p : Partition) (next : Int) :
    AcceptedBelowMarks (l.record p next) journal := by
  refine ⟨h.ascending.record p next, fun q c hc => ?_, h.neverFalls⟩
  obtain ⟨m, hm, hle⟩ := h.reached q c hc
  obtain ⟨m', hm', hle'⟩ := Ledger.mark_le_record h.ascending p q next hm
  exact ⟨m', hm', Int.le_trans hle hle'⟩

/-- The offsets at hand lie above all that were accepted before. -/
theorem falls_not {offsets : Offsets} {mode : CommitMode} {accepted : Bool}
    (h : AcceptedBelowMarks l journal) (he : e.request? = some (.commit mode offsets accepted))
    (hreach : ∀ p c, offsets.find? p = some c → InOrder p journal →
      ∀ m, l.mark p = some m → m ≤ c) : NeverFalls (e :: journal) := by
  refine neverFalls_cons.mpr ⟨fun p hp => ?_, h.neverFalls⟩
  have hends := Event.ends_of_request? he p
  have hbefore := h.neverFalls _ List.suffix_rfl p (hp.of_cons hends)
  rw [commitsOf_cons hends, Event.committed?_commit he]
  split
  · cases hc : offsets.find? p with
    | none => exact hbefore
    | some c =>
      refine List.pairwise_cons.mpr ⟨fun c' hc' => ?_, hbefore⟩
      obtain ⟨m, hm, hle⟩ := h.reached p c' hc'
      exact Int.le_trans hle (hreach p c hc (hp.of_cons hends) m hm)
  · exact hbefore

/-- All pending offsets are committed. -/
theorem commit (h : AcceptedBelowMarks l journal) {mode : CommitMode} {accepted : Bool}
    (he : e.request? = some (.commit mode l.pending accepted)) :
    AcceptedBelowMarks (l.afterCommit accepted) (e :: journal) := by
  have hmark {p : Partition} {c : Int} (hc : l.pending.find? p = some c) :
      l.mark p = some c := by
    rw [Ledger.mark, Ledger.get?, hc, Option.some_or]
  refine ⟨l.ascending_afterCommit accepted, fun p c hc => ?_, h.falls_not he ?_⟩
  · rw [l.mark_afterCommit]
    rw [commitsOf_cons (Event.ends_of_request? he p), Event.committed?_commit he] at hc
    rcases List.mem_append.mp hc with hnew | hold
    · split at hnew
      · exact ⟨c, hmark (Option.mem_toList.mp hnew), Int.le_refl c⟩
      · exact absurd hnew List.not_mem_nil
    · exact h.reached p c hold
  · intro p c hc _ m hm
    rw [hmark hc] at hm
    exact Int.le_of_eq (Option.some.inj hm).symm

/-- The periods of partitions end that the ledger forgets.  The offsets accepted
in them do not matter any more. -/
theorem revoked (hl : l.Ascending) (ps : List Partition)
    (hreached : ∀ p, p ∉ ps → ∀ c ∈ commitsOf p journal, ∃ m, l.mark p = some m ∧ c ≤ m)
    (hf : NeverFalls journal) (n : Nat) :
    AcceptedBelowMarks (l.forget ps) (.revoked ps n :: journal) := by
  have hcommits (p : Partition) : commitsOf p (.revoked ps n :: journal) =
      if p ∈ ps then [] else commitsOf p journal := by
    by_cases hp : p ∈ ps
    · rw [if_pos hp, commitsOf_cons_of_ends (by simp [hp])]
    · rw [if_neg hp, commitsOf_cons (by simp [hp])]
      rfl
  refine ⟨hl.forget ps, fun p c hc => ?_, neverFalls_cons.mpr ⟨fun p hp => ?_, hf⟩⟩
  · rw [hcommits] at hc
    split at hc
    · exact absurd hc List.not_mem_nil
    · next hp =>
      obtain ⟨m, hm, hle⟩ := hreached p hp c hc
      exact ⟨m, by rw [Ledger.mark_forget, if_neg hp, hm], hle⟩
  · rw [hcommits]
    split
    · exact .nil
    · next hp' => exact hf _ List.suffix_rfl p (hp.of_cons (by simp [hp']))

/-- Offsets that reach the marks are committed for partitions whose periods end
with this. -/
theorem handOver (h : AcceptedBelowMarks l journal) {ps : List Partition} {offsets : Offsets}
    (hreaches : AtLeastMarks l journal ps offsets) {mode : CommitMode} {accepted : Bool}
    (he : e.request? = some (.commit mode offsets accepted)) (n : Nat) :
    AcceptedBelowMarks (l.forget ps) (.revoked ps n :: e :: journal) := by
  refine revoked h.ascending ps (fun p hp c hc => ?_)
    (h.falls_not he fun p c hc => (hreaches p c hc).2) n
  -- A commit of other partitions accepts nothing for this one.
  have hnone : offsets.find? p = none := by
    cases ho : offsets.find? p with
    | none => rfl
    | some c' => exact absurd (hreaches p c' ho).1 hp
  rw [commitsOf_cons (Event.ends_of_request? he p), Event.committed?_commit he, hnone,
    ite_self] at hc
  exact h.reached p c hc

end AcceptedBelowMarks
end Dispatch

/-! ## Dispatchers -/

namespace Dispatcher

variable {ω : Type}

/-- What the ledger of a dispatcher has handed out does not lie above its
marks. -/
def RisingInv (d : Dispatcher ω) : Prop :=
  AcceptedBelowMarks d.ledger d.journal

/-- A change that leaves the ledger alone and tells of no commit and of no
period that ends. -/
structure Plain (d d' : Dispatcher ω) : Prop where
  ledger : d'.ledger = d.ledger
  tells : Tells Event.IsPlain d d'

namespace Plain

variable {d d' d₁ d₂ d₃ : Dispatcher ω}

theorem ofSilent (hl : d'.ledger = d.ledger) (hj : d'.journal = d.journal) : Plain d d' :=
  ⟨hl, .ofSilent hj⟩

theorem refl (d : Dispatcher ω) : Plain d d :=
  ofSilent rfl rfl

theorem trans (h₁ : Plain d₁ d₂) (h₂ : Plain d₂ d₃) : Plain d₁ d₃ :=
  ⟨h₂.ledger.trans h₁.ledger, h₁.tells.trans h₂.tells⟩

theorem quiet (h : Quiet d d') : Plain d d' := by
  obtain ⟨es, hj, hes⟩ := h.journal
  exact ⟨h.ledger, es, hj, fun e he => Event.isPlain_of_isQuiet (hes e he)⟩

theorem tellOne (d : Dispatcher ω) {e : Dispatch.Event} (h : e.IsPlain) : Plain d (d.tell [e]) :=
  ⟨rfl, .tellOne d h⟩

theorem worked (h : Worked d d') : Plain d d' := by
  obtain ⟨es, hj⟩ := h.journal
  exact ⟨h.ledger, _, hj, fun _ he => Event.isPlain_workers he⟩

theorem work (d : Dispatcher ω) (steps : List Nat) : Plain d (d.work steps) :=
  worked (.work d steps)

theorem submit (d : Dispatcher ω) (batch : Batch) : Plain d (d.submit batch) :=
  ⟨rfl, _, rfl, fun _ he => Event.isPlain_workers he⟩

theorem hold (d : Dispatcher ω) (held : ω) : Plain d (d.hold held) :=
  ofSilent rfl rfl

theorem withGate (d : Dispatcher ω) (r : Gate × List Gate.Event) : Plain d (d.withGate r) := by
  refine ⟨rfl, _, rfl, fun e he => ?_⟩
  obtain ⟨e, -, rfl⟩ := List.mem_map.mp (List.mem_reverse.mp he)
  exact ⟨rfl, nofun⟩

end Plain

namespace RisingInv

variable {d d' : Dispatcher ω}

theorem plain (h : RisingInv d) (hp : Plain d d') : RisingInv d' := by
  obtain ⟨es, hj, hes⟩ := hp.tells
  rw [RisingInv, hp.ledger, hj]
  exact AcceptedBelowMarks.append h hes

theorem record (h : RisingInv d) (p : Partition) (next : Int) : RisingInv (d.record p next) := by
  have hrecord : RisingInv { d with ledger := d.ledger.record p next } :=
    AcceptedBelowMarks.record h p next
  refine hrecord.plain ⟨rfl, .tell _ fun e he => ?_⟩
  obtain ⟨e, -, rfl⟩ := List.mem_map.mp he
  exact ⟨rfl, nofun⟩

theorem commit (h : RisingInv d) (forced : Bool) : RisingInv (d.commit forced) := by
  rcases d.commit_cases forced with heq | ⟨accepted, e, he, -, -, hl, hj, -⟩
  · rw [heq]
    exact h
  · rw [RisingInv, hl, hj]
    exact AcceptedBelowMarks.commit h he

/-- A revocation whose drain hands over offsets that reach the marks. -/
theorem revoke [Held ω] [Held.DrainsInSteps ω] (h : RisingInv d) (m : Meanwhile)
    (ps : List Partition)
    (hledger : (Held.drain (d.tell [.revoking ps]) m ps).1.ledger = d.ledger.forget ps)
    (hreaches : AtLeastMarks d.ledger d.journal ps
      (Held.drain (d.tell [.revoking ps]) m ps).2) : RisingInv (d.revoke m ps) := by
  unfold Dispatcher.revoke
  split
  · exact h
  · have hbegin : RisingInv (d.tell [.revoking ps]) := h.plain (.tellOne d ⟨rfl, nofun⟩)
    have htells := tells_drain (d.tell [.revoking ps]) m ps
    generalize Held.drain (d.tell [.revoking ps]) m ps = s at hledger hreaches htells ⊢
    obtain ⟨d', offsets⟩ := s
    have hpolled (p : Partition) : InOrder p d'.journal ↔ InOrder p d.journal := by
      rw [InOrder, htells.polled p]
      rfl
    have hdrained : AcceptedBelowMarks d.ledger d'.journal := by
      obtain ⟨es, hj, hes⟩ := htells
      rw [hj]
      exact AcceptedBelowMarks.append hbegin fun e he => Event.isPlain_of_isMinor (hes e he)
    dsimp only at hledger hreaches ⊢
    rcases d'.commitRevoked_cases offsets with
      ⟨-, heq⟩ | ⟨accepted, e, he, -, -, -, hl, hj, -⟩
    · rw [heq, RisingInv]
      have hend := AcceptedBelowMarks.revoked hdrained.ascending ps (fun p _ => hdrained.reached p)
        hdrained.neverFalls offsets.size
      rw [← hledger] at hend
      exact hend
    · have hreaches' : AtLeastMarks d.ledger d'.journal ps offsets := fun p c hc =>
        ⟨(hreaches p c hc).1, fun hp => (hreaches p c hc).2 ((hpolled p).mp hp)⟩
      have hend := hdrained.handOver hreaches' he offsets.size
      rw [RisingInv]
      have hledger' : (d'.commitRevoked offsets).ledger = d.ledger.forget ps := hl.trans hledger
      rw [← hledger', ← hj] at hend
      exact hend

end RisingInv

theorem risingInv_initial [Cycled ω] (settings : Settings) (workers : Workers) (broker : Broker) :
    RisingInv (initial settings workers broker : Dispatcher ω) :=
  AcceptedBelowMarks.nothing.cons ⟨rfl, nofun⟩

end Dispatcher
end RecordDispatch
