import RecordDispatch.Proofs.Envelope.Parallel

/-!
# Credentials read in parallel

Two values that differ at most in the characters of their strings, each string
with as many bytes as its counterpart, are read as credentials in parallel, with
one exception.  A string alone is read as the name of a kind of credential, and
a fault of an unknown name shows the name.
-/

namespace RecordDispatch.Envelope

open Json

/-- The insides of strings that are equal or, if they are made of characters,
differ in these and have equally many bytes. -/
def Veiled (s s' : Bytes) : Prop :=
  Same s s' ∨ ∃ cs cs', Glyphs cs s ∧ Glyphs cs' s' ∧ s.length = s'.length

theorem readString_parallel {s r r' : Bytes} (hs : Strokes s) (hlength : r.length = r'.length) :
    Parallel Eq r r' (readString (s ++ 0x22 :: r)) (readString (s ++ 0x22 :: r')) := by
  obtain ⟨v, hv⟩ := readString_strokes hs
  have h := hv.parallel trivial trivial hlength
  rwa [List.append_assoc, List.append_assoc] at h

theorem readable_same : Readable Eq Same := by
  rintro s _ ⟨hs, rfl⟩
  exact ⟨rfl, fun r r' hlength => readString_parallel hs hlength⟩

theorem readable_veiled : Readable (fun _ _ => True) Veiled := by
  rintro s s' (hs | ⟨cs, cs', hs, hs', hlength⟩)
  · exact ⟨(readable_same s s' hs).1, fun r r' hr =>
      ((readable_same s s' hs).2 r r' hr).mono fun _ _ _ => trivial⟩
  · refine ⟨hlength, fun r r' _ => ?_⟩
    rw [readString_glyphs hs, readString_glyphs hs']
    exact .read trivial

/-- A string that is not changed is read as the same text. -/
theorem readString_unchanged {s r r' : Bytes} (hs : Veiled s s) (hlength : r.length = r'.length) :
    Parallel Eq r r' (readString (s ++ 0x22 :: r)) (readString (s ++ 0x22 :: r')) := by
  obtain hs | ⟨cs, cs', hs, -, -⟩ := hs
  · exact readString_parallel hs.1 hlength
  · rw [readString_glyphs hs, readString_glyphs hs]
    exact .read rfl

theorem readKind_parallel {s r r' : Bytes} (hlength : r.length = r'.length)
    (h : Parallel Eq r r' (readString (s ++ 0x22 :: r)) (readString (s ++ 0x22 :: r'))) :
    Parallel Eq r r' (readKind (s ++ 0x22 :: r)) (readKind (s ++ 0x22 :: r')) := by
  refine h.bind ?_
  rintro name _ rfl
  dsimp only
  cases credentialKind name with
  | some kind => exact .read rfl
  | none => exact .fault hlength

/-- What follows the text of a credential. -/
def endCredential (a : Authentication) (s : Bytes) : Except Fault (Authentication × Bytes) :=
  match skipBlanks s with
  | [] => Json.fail .endInObject []
  | c :: rest => if c = 0x7D then return (a, rest) else Json.fail .expectedValue (c :: rest)

section Objects

variable {R : Bytes → Bytes → Prop} {t t' r r' : Bytes}

/-- A credential ends with its object, and another member is refused. -/
theorem endCredential_parallel (ht : Paired R (.members false) t t')
    (hR : ∀ s s', R s s' → s.length = s'.length) (hlength : r.length = r'.length)
    (a a' : Authentication) :
    Parallel (fun _ _ => True) r r' (endCredential a (t ++ 0x7D :: r))
      (endCredential a' (t' ++ 0x7D :: r')) := by
  have ht' := ht.length_eq hR
  cases ht with
  | noMember hw =>
    rw [endCredential, endCredential, skipBlanks_append hw, skipBlanks_append hw,
      skipBlanks_cons (by decide), skipBlanks_cons (by decide)]
    exact .read trivial
  | member hu =>
    cases hu with
    | later hw hw' =>
      simp only [endCredential, List.append_assoc, List.cons_append, skipBlanks_append hw,
        skipBlanks_cons (show isSpace 0x2C = false by decide)]
      refine .fault ?_
      simp only [List.length_append, List.length_cons] at ht' ⊢
      omega

theorem readCredential_key {u : Bytes} (hu : Blank u) (s : Bytes) :
    readCredential (0x7B :: (u ++ 0x22 :: s)) = (do
      let (kind, rest) ← readKind s
      let rest ← colon rest
      let (text, rest) ← readText rest
      endCredential (kind text) rest) := by
  rw [readCredential, skipBlanks_cons (by decide)]
  dsimp only
  rw [if_pos rfl, skipBlanks_append hu, skipBlanks_cons (by decide)]
  rfl

theorem readText_blank {w : Bytes} (hw : Blank w) (s : Bytes) : readText (w ++ s) = readText s := by
  rw [readText, readText, skipBlanks_append hw]

/-- Objects are read as credentials in parallel: their keys are equal. -/
theorem readCredential_object {s s' : Bytes} (hs : Paired Veiled (.members true) s s')
    (hlength : r.length = r'.length) :
    Parallel (fun _ _ => True) r r' (readCredential (0x7B :: (s ++ 0x7D :: r)))
      (readCredential (0x7B :: (s' ++ 0x7D :: r'))) := by
  have hveiled : ∀ s s', Veiled s s' → s.length = s'.length := fun s s' h =>
    (readable_veiled s s' h).1
  cases hs with
  | noMember hw =>
    have hempty (r : Bytes) : readCredential (0x7B :: (s ++ 0x7D :: r)) =
        failNext .expectedValue (0x7D :: r) := by
      rw [readCredential, skipBlanks_cons (by decide)]
      dsimp only
      rw [if_pos rfl, skipBlanks_append hw, skipBlanks_cons (by decide)]
      rfl
    rw [hempty, hempty]
    exact .fault hlength
  | @member _ u k w w' v v' t t' hu hk hw hw' hv ht =>
    cases hu with
    | first hu =>
      have hv' := hv.length_eq hveiled
      have ht' := ht.length_eq hveiled
      have hrest : (t ++ 0x7D :: r).length = (t' ++ 0x7D :: r').length := by
        simp only [List.length_append, List.length_cons, ht', hlength]
      have hafter : (w ++ 0x3A :: (w' ++ (v ++ (t ++ 0x7D :: r)))).length =
          (w ++ 0x3A :: (w' ++ (v' ++ (t' ++ 0x7D :: r')))).length := by
        simp only [List.length_append, List.length_cons, hv', ht', hlength]
      simp only [List.append_assoc, List.cons_append, readCredential_key hu]
      refine (readKind_parallel hafter (readString_parallel hk hafter)).bind ?_
      rintro kind _ rfl
      dsimp only
      rw [colon_append hw, colon_append hw, ok_bind, ok_bind, readText_blank hw',
        readText_blank hw']
      have htext := readText_parallel hv readable_veiled
        (ht.members_ends ⟨r, rfl⟩) (ht.swap.members_ends ⟨r', rfl⟩) hrest
      exact htext.bind fun a a' _ => endCredential_parallel ht hveiled hlength _ _

end Objects

theorem readCredential_quote (s r : Bytes) :
    readCredential (0x22 :: (s ++ [0x22]) ++ r) = (readKind (s ++ 0x22 :: r) >>= fun p =>
      failWhole (.wrongType .unitVariant "newtype variant") p.2) := by
  rw [List.cons_append, List.append_assoc, readCredential, skipBlanks_cons (by decide)]
  rfl

/-- Values are read as credentials in parallel, unless a string alone is changed. -/
theorem readCredential_parallel {x x' r r' : Bytes} (h : Paired Veiled .value x x')
    (hbare : x.head? = some 0x22 → x' = x) (hlength : r.length = r'.length)
    (hstop : (objectStop r).length = (objectStop r').length) :
    Parallel (fun _ _ => True) r r' (readCredential (x ++ r)) (readCredential (x' ++ r')) := by
  have hx := h.length_eq fun s s' hs => (readable_veiled s s' hs).1
  obtain ⟨b, rest, rest', hb, hb', hopening⟩ := h.head
  by_cases hbrace : b = 0x7B
  · obtain ⟨s, s', hs, rfl, rfl⟩ := h.object_of_head (by rw [hb, hbrace]; rfl)
    rw [List.cons_append, List.cons_append, List.append_assoc, List.append_assoc]
    exact readCredential_object hs hlength
  by_cases hquote : b = 0x22
  · obtain ⟨s, s', hs, hxs, hxs'⟩ := h.string_of_head (by rw [hb, hquote]; rfl)
    obtain rfl : s' = s := by
      have hsame := hbare (by rw [hb, hquote]; rfl)
      rw [hxs, hxs'] at hsame
      exact List.append_cancel_right (List.cons.inj hsame).2
    rw [hxs, hxs', readCredential_quote, readCredential_quote]
    exact (readKind_parallel hlength (readString_unchanged hs hlength)).bind fun _ _ _ =>
      .whole hstop
  · have hother (s : Bytes) : readCredential (b :: s) = failNext .expectedValue (b :: s) := by
      rw [readCredential, skipBlanks_cons hopening.space]
      dsimp only
      rw [if_neg hbrace, if_neg hquote]
    subst hb hb'
    rw [List.cons_append, List.cons_append, hother, hother]
    refine .fault ?_
    simp_all

end RecordDispatch.Envelope
