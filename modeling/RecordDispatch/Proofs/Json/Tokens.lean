import RecordDispatch.Proofs.Json.Grammar

/-!
# What the readers make of tokens

A reader may refuse a text that the grammar allows: a surrogate on its own, a
number out of range, brackets nested too deep.  So each reader is known by its
`Verdict` on a text, which does not depend on what follows (`Makes`).  Strings
of characters are read (`readString_glyphs`), and what is only skipped is
never refused.
-/

namespace RecordDispatch.Json

/-- What a reader makes of a text: a value, or a fault with those bytes of the
text that are unread.  Such a fault is settled: it lies where it was found. -/
inductive Verdict (α : Type)
  | read (value : α)
  | fault (cause : Cause) (left : Bytes)

/-- A fault when more follows the text that it was found in. -/
def Fault.followed (r : Bytes) (fault : Fault) : Fault :=
  { fault with unread := fault.unread ++ r }

namespace Verdict

variable {α β : Type}

/-- The answer of the reader when more follows the text. -/
def before (r : Bytes) : Verdict α → Except Fault (α × Bytes)
  | .read a => .ok (a, r)
  | .fault cause left => .error ⟨cause, left ++ r, true⟩

/-- The verdict of a reader that makes something of the value. -/
def map (f : α → β) : Verdict α → Verdict β
  | .read a => .read (f a)
  | .fault cause left => .fault cause left

end Verdict

/-- A reader that has succeeded hands on what it read. -/
theorem ok_bind {α β : Type} (a : α) (f : α → Except Fault β) : (.ok a >>= f) = f a := rfl

section Makes

variable {α β : Type} {Next Then : Bytes → Prop}

/-- The reader gives the same verdict on the text followed by any continuation of
the kind `Next`: a value, with the continuation left to read, or a fault. -/
def Makes (Next : Bytes → Prop) (f : Bytes → Except Fault (α × Bytes)) (x : Bytes)
    (v : Verdict α) : Prop :=
  ∀ r, Next r → f (x ++ r) = v.before r

theorem Makes.mono {f : Bytes → Except Fault (α × Bytes)} {x : Bytes} {v : Verdict α}
    (h : Makes Next f x v) (hnext : ∀ r, Then r → Next r) : Makes Then f x v :=
  fun r hr => h r (hnext r hr)

/-- Two readers, one after the other, on two texts. -/
theorem Makes.bind {f : Bytes → Except Fault (α × Bytes)}
    {g : α → Bytes → Except Fault (β × Bytes)} {x y : Bytes} {v : Verdict α}
    (hf : Makes Next f x v) (hnext : ∀ r, Then r → Next (y ++ r))
    (hg : ∀ a, ∃ u, Makes Then (g a) y u) :
    ∃ u, Makes Then (fun s => f s >>= fun p => g p.1 p.2) (x ++ y) u := by
  cases v with
  | fault cause left =>
    refine ⟨.fault cause (left ++ y), fun r hr => ?_⟩
    dsimp only
    rw [List.append_assoc, hf _ (hnext r hr), Verdict.before, Verdict.before, List.append_assoc]
    rfl
  | read a =>
    obtain ⟨u, hu⟩ := hg a
    refine ⟨u, fun r hr => ?_⟩
    dsimp only
    rw [List.append_assoc, hf _ (hnext r hr), ← hu r hr]
    rfl

end Makes

/-! ## Blanks, words and signs -/

theorem blank_nil : Blank [] :=
  fun _ h => by cases h

theorem skipBlanks_append {w : Bytes} (hw : Blank w) (s : Bytes) :
    skipBlanks (w ++ s) = skipBlanks s :=
  List.dropWhile_append_of_pos hw

theorem skipBlanks_cons {b : UInt8} (hb : isSpace b = false) (s : Bytes) :
    skipBlanks (b :: s) = b :: s :=
  List.dropWhile_cons_of_neg (by simp [hb])

theorem word_append (x r : Bytes) : word x (x ++ r) = .ok r := by
  induction x with
  | nil => rfl
  | cons b x ih => rw [List.cons_append, word, if_pos rfl, ih]

theorem colon_append {w : Bytes} (hw : Blank w) (s : Bytes) :
    colon (w ++ 0x3A :: s) = .ok s := by
  rw [colon, skipBlanks_append hw, skipBlanks_cons (by decide)]
  rfl

end RecordDispatch.Json
