import RecordDispatch.Envelope
import RecordDispatch.Proofs.Json.Values

/-!
# Two texts read in parallel

Two readings are parallel if they end alike: both with values, which are
related, before given texts, or both with faults of one cause that leave equally
many bytes unread.  A fault of the value as a whole is placed where the closing
stops, so there the bytes after that count.

* `Makes.parallel`: one text, followed by texts of equal length, is read in
  parallel.
* `Parallel.bind`: readings are put one after the other.
* `readText_parallel` and `readOptional_parallel` read paired texts.
-/

namespace RecordDispatch.Envelope

open Json

variable {α β : Type}

/-- Two readings that end alike, before `r` and `r'` if they succeed. -/
inductive Parallel (T : α → α → Prop) (r r' : Bytes) :
    Except Fault (α × Bytes) → Except Fault (α × Bytes) → Prop
  | read {a a' : α} : T a a' → Parallel T r r' (.ok (a, r)) (.ok (a', r'))
  | fault {cause : Cause} {u u' : Bytes} : u.length = u'.length →
    Parallel T r r' (.error ⟨cause, u, true⟩) (.error ⟨cause, u', true⟩)
  | whole {cause : Cause} {u u' : Bytes} : (objectStop u).length = (objectStop u').length →
    Parallel T r r' (.error ⟨cause, u, false⟩) (.error ⟨cause, u', false⟩)

theorem Parallel.bind {T : α → α → Prop} {U : β → β → Prop} {r r' q q' : Bytes}
    {m m' : Except Fault (α × Bytes)} {g k : α × Bytes → Except Fault (β × Bytes)}
    (h : Parallel T r r' m m') (hg : ∀ a a', T a a' → Parallel U q q' (g (a, r)) (k (a', r'))) :
    Parallel U q q' (m >>= g) (m' >>= k) := by
  cases h with
  | read ha => exact hg _ _ ha
  | fault hu => exact .fault hu
  | whole hu => exact .whole hu

theorem Parallel.mono {T U : α → α → Prop} {r r' : Bytes} {m m' : Except Fault (α × Bytes)}
    (h : Parallel T r r' m m') (himp : ∀ a a', T a a' → U a a') : Parallel U r r' m m' := by
  cases h with
  | read ha => exact .read (himp _ _ ha)
  | fault hu => exact .fault hu
  | whole hu => exact .whole hu

end RecordDispatch.Envelope

namespace RecordDispatch.Json

open Envelope

/-- One text is read in parallel before texts of equal length. -/
theorem Makes.parallel {α : Type} {Next : Bytes → Prop}
    {f : Bytes → Except Fault (α × Bytes)} {x r r' : Bytes} {v : Verdict α}
    (h : Makes Next f x v) (hr : Next r) (hr' : Next r') (hlength : r.length = r'.length) :
    Parallel Eq r r' (f (x ++ r)) (f (x ++ r')) := by
  rw [h r hr, h r' hr']
  cases v with
  | read a => exact .read rfl
  | fault cause left =>
    refine .fault ?_
    rw [List.length_append, List.length_append, hlength]

/-- Paired texts are equally long if their strings are. -/
theorem Paired.length_eq {R : Bytes → Bytes → Prop} {f : Form} {x x' : Bytes}
    (h : Paired R f x x') (hR : ∀ s s', R s s' → s.length = s'.length) :
    x.length = x'.length := by
  induction h with
  | string hs => simp [hR _ _ hs]
  | list _ ih | object _ ih => simp [ih]
  | item _ _ _ ihv iht | member _ _ _ _ _ _ ihv iht => simp [ihv, iht]
  | _ => rfl

end RecordDispatch.Json

namespace RecordDispatch.Envelope

open Json

section Texts

variable {T : String → String → Prop} {R : Bytes → Bytes → Prop} {x x' r r' : Bytes}

/-- Strings that are related are read in parallel. -/
def Readable (T : String → String → Prop) (R : Bytes → Bytes → Prop) : Prop :=
  ∀ s s', R s s' → s.length = s'.length ∧ ∀ r r' : Bytes, r.length = r'.length →
    Parallel T r r' (readString (s ++ 0x22 :: r)) (readString (s' ++ 0x22 :: r'))

theorem mismatch_digit {d : UInt8} (hd : isDigit d = true) (expected : String) (s : Bytes) :
    (mismatch expected (d :: s) : Except Fault (String × Bytes)) = (do
      let (n, rest) ← readNumber false (d :: s)
      Json.fail (.wrongType (mismatch.numberFound n) expected) rest) := by
  have hne (b : UInt8) (hb : isDigit b = false) : d ≠ b := by
    rintro rfl
    simp [hd] at hb
  rw [mismatch.eq_def]
  dsimp only
  rw [if_neg (hne _ rfl), if_neg (hne _ rfl), if_neg (hne _ rfl), if_neg (hne _ rfl), if_pos hd]

/-- Values that are no strings are refused alike. -/
theorem mismatch_parallel {expected : String} (h : Paired R .value x x')
    (hR : ∀ s s', R s s' → s.length = s'.length) (hx : x.head? ≠ some 0x22)
    (hr : Ends r) (hr' : Ends r') (hlength : r.length = r'.length) :
    Parallel T r r' (mismatch expected (x ++ r)) (mismatch expected (x' ++ r')) := by
  have hx' := h.length_eq hR
  have hrefuse (n n' : Number) (hn : n = n') : Parallel T r r'
      (Json.fail (.wrongType (mismatch.numberFound n) expected) r)
      (Json.fail (.wrongType (mismatch.numberFound n') expected) r') := hn ▸ .fault hlength
  cases h with
  | nullWord | trueWord | falseWord => exact .fault hlength
  | number hn =>
    obtain ⟨v, hv⟩ := readNumber_figures hn false
    obtain ⟨d, rest, rfl, hd⟩ := hn.head
    rw [List.cons_append, List.cons_append, mismatch_digit hd, mismatch_digit hd]
    exact (hv.parallel hr hr' hlength).bind hrefuse
  | negative hn =>
    obtain ⟨v, hv⟩ := readNumber_figures hn true
    exact (hv.parallel hr hr' hlength).bind hrefuse
  | string hs => exact absurd rfl hx
  | list | object =>
    refine .fault ?_
    simp_all

/-- Values are read as texts in parallel. -/
theorem readText_parallel (h : Paired R .value x x') (hR : Readable T R) (hr : Ends r)
    (hr' : Ends r') (hlength : r.length = r'.length) :
    Parallel T r r' (readText (x ++ r)) (readText (x' ++ r')) := by
  obtain ⟨b, rest, rest', hx, hx', hb⟩ := h.head
  by_cases hquote : b = 0x22
  · obtain ⟨s, s', hs, rfl, rfl⟩ := h.string_of_head (by rw [hx, hquote]; rfl)
    rw [List.cons_append, List.cons_append, List.append_assoc, List.append_assoc]
    exact (hR s s' hs).2 r r' hlength
  · have hrefused : Parallel T r r' (mismatch "a string" (x ++ r))
        (mismatch "a string" (x' ++ r')) :=
      mismatch_parallel h (fun s s' hs => (hR s s' hs).1) (by rw [hx]; simpa using hquote) hr hr'
        hlength
    have hother (s : Bytes) : readText (b :: s) = mismatch "a string" (b :: s) := by
      rw [readText, skipBlanks_cons hb.space]
      exact if_neg hquote
    subst hx hx'
    rwa [List.cons_append, List.cons_append, hother, hother]

end Texts

/-- A value that does not begin like `null` is not missing. -/
theorem readOptional_some {b : UInt8} (hb : Opening b) (hnull : b ≠ 0x6E)
    (read : Bytes → Except Fault (α × Bytes)) (s : Bytes) :
    readOptional read (b :: s) = (read (b :: s) >>= fun p => pure (some p.1, p.2)) := by
  rw [readOptional, skipBlanks_cons hb.space]
  split
  · exact absurd (List.cons.inj ‹_›).1 hnull
  · rfl

/-- Values that may be missing are read in parallel. -/
theorem readOptional_parallel {T : α → α → Prop} {U : Option α → Option α → Prop}
    {R : Bytes → Bytes → Prop} {x x' r r' : Bytes} {read : Bytes → Except Fault (α × Bytes)}
    (h : Paired R .value x x') (hnone : U none none) (hsome : ∀ a a', T a a' → U (some a) (some a'))
    (hread : x.head? ≠ some 0x6E → Parallel T r r' (read (x ++ r)) (read (x' ++ r'))) :
    Parallel U r r' (readOptional read (x ++ r)) (readOptional read (x' ++ r')) := by
  obtain ⟨b, rest, rest', hx, hx', hb⟩ := h.head
  by_cases hnull : b = 0x6E
  · obtain ⟨rfl, rfl⟩ := h.null_of_head (by rw [hx, hnull]; rfl)
    exact .read hnone
  · have hvalue := hread (by rw [hx]; simpa using hnull)
    subst hx hx'
    rw [List.cons_append, List.cons_append, readOptional_some hb hnull,
      readOptional_some hb hnull]
    exact hvalue.bind fun a a' ha => .read (hsome a a' ha)

end RecordDispatch.Envelope
