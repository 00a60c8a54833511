import RecordDispatch.Proofs.Dispatcher

/-!
# What drains are made of

The two ways of dispatching drain partitions differently, but of the same steps:
work is taken out of the dispatcher, the ledger forgets partitions, processors
are asked to stop, workers go on, time passes, and little of it is told.  A
relation that holds across each of these steps (`DrainSteps`) holds across
a drain (`Held.DrainsInSteps`), up to the entries that a drain takes out of the
monitor at its end.

`Tells` is the relation that is about the journal.  By `tells_drain` a drain
tells of minor events only, and so the records that polls have returned are the
same after it.
-/

namespace RecordDispatch

open Dispatch

namespace Dispatch

namespace Event

/-- Whether the event is one of those that drains tell themselves. -/
def isOfDrain : Event → Bool
  | .dropped _ => true
  | .waited _ _ => true
  | .drained _ _ _ => true
  | _ => false

/-- Whether the event is quiet or of workers. -/
def isMinor : Event → Bool
  | .workers _ => true
  | e => e.isQuiet

theorem isQuiet_of_isOfDrain {e : Event} (h : e.isOfDrain = true) : e.isQuiet = true := by
  cases e with
  | dropped | waited | drained => rfl
  | _ => exact absurd h Bool.false_ne_true

theorem isMinor_of_isQuiet {e : Event} (h : e.isQuiet = true) : e.isMinor = true := by
  cases e with
  | workers => rfl
  | _ => exact h

theorem isMinor_cases {e : Event} (h : e.isMinor = true) :
    (∃ w, e = .workers w) ∨ e.isQuiet = true := by
  cases e with
  | workers w => exact Or.inl ⟨w, rfl⟩
  | _ => exact Or.inr h

theorem isPlain_of_isMinor {e : Event} (h : e.isMinor = true) : e.IsPlain := by
  rcases isMinor_cases h with ⟨w, rfl⟩ | hquiet
  · exact ⟨rfl, nofun⟩
  · exact isPlain_of_isQuiet hquiet

/-- A minor event says of no record that it was polled, and ends no period. -/
theorem polled_next_of_isMinor {e : Event} (h : e.isMinor = true) (p : Partition)
    (s : Period) : (s.next p e).polled = s.polled := by
  rcases isMinor_cases h with ⟨w, rfl⟩ | hquiet
  · simp only [Period.next, Period.handle]
    repeat' split
    all_goals rfl
  · rw [Period.next_of_isQuiet hquiet]

end Event

theorem polled_append_minor {es : List Event} (h : ∀ e ∈ es, e.isMinor = true)
    (p : Partition) (older : List Event) :
    (period p (es ++ older)).polled = (period p older).polled := by
  induction es with
  | nil => rfl
  | cons e es ih =>
    rw [List.cons_append, period_cons, Event.polled_next_of_isMinor (h e List.mem_cons_self)]
    exact ih fun e' he' => h e' (List.mem_cons_of_mem e he')

end Dispatch

namespace Dispatcher

variable {ω : Type}

/-! ## Steps -/

/-- A relation that holds across each kind of step of which drains are made. -/
structure DrainSteps (R : Dispatcher ω → Dispatcher ω → Prop) : Prop where
  refl : ∀ d, R d d
  trans : ∀ {d₁ d₂ d₃}, R d₁ d₂ → R d₂ d₃ → R d₁ d₃
  hold : ∀ d held, R d (d.hold held)
  forget : ∀ (d : Dispatcher ω) ps, R d { d with ledger := d.ledger.forget ps }
  stop : ∀ (d : Dispatcher ω) id, R d { d with workers := d.workers.stop id }
  work : ∀ d steps, R d (d.work steps)
  elapse : ∀ d t, R d (d.elapse t)
  tellOne : ∀ d {e : Dispatch.Event}, e.isOfDrain = true → R d (d.tell [e])

namespace DrainSteps

variable {R : Dispatcher ω → Dispatcher ω → Prop}

theorem await (hR : DrainSteps R) (d : Dispatcher ω) (m : Meanwhile) (point : Point)
    (timeout : Duration) (isOver : Workers → Bool) : R d (d.await m point timeout isOver) := by
  obtain ⟨steps, t, heq⟩ := d.await_cases m point timeout isOver
  rw [heq]
  exact hR.trans (hR.work d steps) (hR.elapse _ t)

theorem foldl (hR : DrainSteps R) {σ α : Type} (dispatcher : σ → Dispatcher ω) {f : σ → α → σ}
    (step : ∀ s a, R (dispatcher s) (dispatcher (f s a))) (l : List α) (s : σ) :
    R (dispatcher s) (dispatcher (l.foldl f s)) :=
  foldl_rel hR.refl hR.trans dispatcher step l s

theorem and {R' : Dispatcher ω → Dispatcher ω → Prop} (hR : DrainSteps R)
    (hR' : DrainSteps R') : DrainSteps fun d d' => R d d' ∧ R' d d' where
  refl d := ⟨hR.refl d, hR'.refl d⟩
  trans h₁ h₂ := ⟨hR.trans h₁.1 h₂.1, hR'.trans h₁.2 h₂.2⟩
  hold d held := ⟨hR.hold d held, hR'.hold d held⟩
  forget d ps := ⟨hR.forget d ps, hR'.forget d ps⟩
  stop d id := ⟨hR.stop d id, hR'.stop d id⟩
  work d steps := ⟨hR.work d steps, hR'.work d steps⟩
  elapse d t := ⟨hR.elapse d t, hR'.elapse d t⟩
  tellOne d _ h := ⟨hR.tellOne d h, hR'.tellOne d h⟩

end DrainSteps
end Dispatcher

namespace Dispatch

/-- Work of which a drain is made of these steps until it takes entries out of
the monitor. -/
class Held.DrainsInSteps (ω : Type) [Held ω] : Prop where
  drain_rel : ∀ {R : Dispatcher ω → Dispatcher ω → Prop}, Dispatcher.DrainSteps R →
    ∀ (d : Dispatcher ω) (m : Meanwhile) (ps : List Partition),
      ∃ d₁ : Dispatcher ω, R d d₁ ∧
        (Held.drain d m ps).1 = d₁.setMonitor (d₁.monitor.removeAll ps)

end Dispatch

namespace Dispatcher

variable {ω : Type}

/-! ## What is told -/

/-- The journal was added to, and every new event satisfies a condition. -/
def Tells (good : Dispatch.Event → Prop) (d d' : Dispatcher ω) : Prop :=
  ∃ es, d'.journal = es ++ d.journal ∧ ∀ e ∈ es, good e

namespace Tells

variable {good : Dispatch.Event → Prop} {d d' d₁ d₂ d₃ : Dispatcher ω}

theorem ofSilent (h : d'.journal = d.journal) : Tells good d d' :=
  ⟨[], h, List.forall_mem_nil good⟩

theorem refl (d : Dispatcher ω) : Tells good d d :=
  ofSilent rfl

theorem trans (h₁ : Tells good d₁ d₂) (h₂ : Tells good d₂ d₃) : Tells good d₁ d₃ := by
  obtain ⟨es₁, hj₁, hes₁⟩ := h₁
  obtain ⟨es₂, hj₂, hes₂⟩ := h₂
  refine ⟨es₂ ++ es₁, by rw [hj₂, hj₁, List.append_assoc], ?_⟩
  intro e he
  rcases List.mem_append.mp he with he | he
  · exact hes₂ e he
  · exact hes₁ e he

theorem tell (d : Dispatcher ω) {es : List Dispatch.Event} (h : ∀ e ∈ es, good e) :
    Tells good d (d.tell es) :=
  ⟨es.reverse, rfl, fun e he => h e (List.mem_reverse.mp he)⟩

theorem tellOne (d : Dispatcher ω) {e : Dispatch.Event} (h : good e) :
    Tells good d (d.tell [e]) :=
  tell d fun e' he' => by rwa [List.mem_singleton.mp he']

theorem mono {better : Dispatch.Event → Prop} (h : ∀ e, good e → better e)
    (hd : Tells good d d') : Tells better d d' := by
  obtain ⟨es, hj, hes⟩ := hd
  exact ⟨es, hj, fun e he => h e (hes e he)⟩

theorem work (h : ∀ e, good (.workers e)) (d : Dispatcher ω) (steps : List Nat) :
    Tells good d (d.work steps) := by
  refine ⟨((d.workers.run steps).2.map Event.workers).reverse, rfl, fun e he => ?_⟩
  obtain ⟨e, -, rfl⟩ := List.mem_map.mp (List.mem_reverse.mp he)
  exact h e

end Tells

/-- Drains tell of minor events only. -/
theorem drainSteps_tells :
    DrainSteps (Tells (ω := ω) fun e => e.isMinor = true) where
  refl := .refl
  trans := .trans
  hold _ _ := .ofSilent rfl
  forget _ _ := .ofSilent rfl
  stop _ _ := .ofSilent rfl
  work := .work fun _ => rfl
  elapse _ _ := .ofSilent rfl
  tellOne d _ h := .tellOne d (Event.isMinor_of_isQuiet (Event.isQuiet_of_isOfDrain h))

theorem tells_drain [Held ω] [Held.DrainsInSteps ω] (d : Dispatcher ω) (m : Meanwhile)
    (ps : List Partition) : Tells (fun e => e.isMinor = true) d (Held.drain d m ps).1 := by
  obtain ⟨d₁, htells, heq⟩ := Held.DrainsInSteps.drain_rel drainSteps_tells d m ps
  rw [heq]
  exact htells

theorem Tells.polled {d d' : Dispatcher ω} (h : Tells (fun e => e.isMinor = true) d d')
    (p : Partition) : (period p d'.journal).polled = (period p d.journal).polled := by
  obtain ⟨es, hj, hes⟩ := h
  rw [hj]
  exact polled_append_minor hes p d.journal

end Dispatcher
end RecordDispatch
