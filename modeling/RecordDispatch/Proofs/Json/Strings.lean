import RecordDispatch.Proofs.Json.Tokens

/-!
# What the readers make of strings

* `readString_strokes`: what is read of a string does not depend on what follows
  it.
* `skipString_strokes`: every string is skipped.
* `readString_glyphs`: a string of characters is read as these characters.

A string is read in two steps, which the lemmas keep apart: its pieces are found
first (`Parted`), and the characters are decoded from them.  `Prefixes` joins the
two for one character.
-/

namespace RecordDispatch.Json

/-! ## The pieces of a string -/

/-- A piece when more follows the text that it was found in. -/
def Piece.followed (r : Bytes) : Piece → Piece
  | .raw byte after => .raw byte (after ++ r)
  | .escaped c => .escaped c

/-- The answer of `pieces` when more follows the string. -/
def Verdict.piecesBefore (r : Bytes) (v : Verdict (List Piece)) :
    Except Fault (List Piece × Bytes) :=
  (v.before r).map fun p => (p.1.map (Piece.followed r), p.2)

theorem before_piecesBefore (p : Piece) (v : Verdict (List Piece)) (r : Bytes) :
    Piece.before (p.followed r) (v.piecesBefore r) = (v.map (p :: ·)).piecesBefore r := by
  cases v <;> rfl

theorem shortEscape_u : shortEscape 0x75 = none := by decide

theorem pieces_cons {b : UInt8} (hback : b ≠ 0x5C) (s : Bytes) :
    pieces (b :: s) =
      if b = 0x22 then .ok ([], s)
      else if b < 0x20 then fail .controlCharacter s
      else Piece.before (.raw b s) (pieces s) := by
  rw [pieces.eq_def]
  simp only [hback, if_false]

theorem pieces_quote (r : Bytes) : pieces (0x22 :: r) = .ok ([], r) :=
  (pieces_cons (by decide) r).trans (if_pos rfl)

theorem pieces_plain {b : UInt8} (hb : 0x20 ≤ b) (hquote : b ≠ 0x22) (hback : b ≠ 0x5C)
    (s : Bytes) : pieces (b :: s) = Piece.before (.raw b s) (pieces s) := by
  rw [pieces_cons hback, if_neg hquote, if_neg (UInt8.not_lt.mpr hb)]

theorem pieces_letter {e : UInt8} {c : Char} (he : shortEscape e = some c) (s : Bytes) :
    pieces (0x5C :: e :: s) = Piece.before (.escaped c) (pieces s) := by
  rw [pieces.eq_def]
  simp [he]

/-- The pieces after the escape of a leading surrogate, which has to be followed
by the escape of a trailing one. -/
def afterLead (n : Nat) : Bytes → Except Fault (List Piece × Bytes)
  | [] => fail .endInString []
  | x :: s =>
    if x ≠ 0x5C then fail .endOfHexEscape s
    else match s with
      | [] => fail .endInString []
      | y :: s =>
        if y ≠ 0x75 then fail .endOfHexEscape s
        else match s with
          | h1 :: h2 :: h3 :: h4 :: s =>
            match hexUnit h1 h2 h3 h4 with
            | none => fail .invalidEscape s
            | some m =>
              if m < 0xDC00 || 0xDFFF < m then fail .loneSurrogate s
              else
                let c := 0x10000 + (n - 0xD800) * 0x400 + (m - 0xDC00)
                Piece.before (.escaped (Char.ofNat c)) (pieces s)
          | _ => fail .endInString []

/-- An escape of four digits stands for a surrogate or for a character. -/
theorem pieces_unit {a b c d : UInt8} {n : Nat} (hn : hexUnit a b c d = some n) (s : Bytes) :
    pieces (0x5C :: 0x75 :: a :: b :: c :: d :: s) =
      if 0xDC00 ≤ n && n ≤ 0xDFFF then fail .loneSurrogate s
      else if n < 0xD800 || 0xDBFF < n then Piece.before (.escaped (Char.ofNat n)) (pieces s)
      else afterLead n s := by
  rw [pieces.eq_def]
  simp only [shortEscape_u, hn]
  rfl

theorem pieces_low {a b c d : UInt8} {n : Nat} (hn : hexUnit a b c d = some n)
    (hn₁ : 0xDC00 ≤ n) (hn₂ : n ≤ 0xDFFF) (s : Bytes) :
    pieces (0x5C :: 0x75 :: a :: b :: c :: d :: s) = fail .loneSurrogate s := by
  rw [pieces_unit hn, if_pos (by simp [hn₁, hn₂])]

theorem pieces_code {a b c d : UInt8} {n : Nat} (hn : hexUnit a b c d = some n)
    (hrange : n < 0xD800 ∨ 0xDFFF < n) (s : Bytes) :
    pieces (0x5C :: 0x75 :: a :: b :: c :: d :: s) =
      Piece.before (.escaped (Char.ofNat n)) (pieces s) := by
  rw [pieces_unit hn, if_neg (by grind), if_pos (by grind)]

theorem pieces_lead {a b c d : UInt8} {n : Nat} (hn : hexUnit a b c d = some n)
    (hn₁ : 0xD800 ≤ n) (hn₂ : n ≤ 0xDBFF) (s : Bytes) :
    pieces (0x5C :: 0x75 :: a :: b :: c :: d :: s) = afterLead n s := by
  rw [pieces_unit hn, if_neg (by grind), if_neg (by grind)]

/-- A leading surrogate and the trailing one after it stand for one character. -/
theorem afterLead_pair {a b c d : UInt8} {n m : Nat} (hm : hexUnit a b c d = some m)
    (hm₁ : 0xDC00 ≤ m) (hm₂ : m ≤ 0xDFFF) (s : Bytes) :
    afterLead n (0x5C :: 0x75 :: a :: b :: c :: d :: s) =
      Piece.before (.escaped (Char.ofNat (0x10000 + (n - 0xD800) * 0x400 + (m - 0xDC00))))
        (pieces s) := by
  have hpair : ¬ (m < 0xDC00 ∨ 0xDFFF < m) := by omega
  simp [afterLead, hm, hpair]

/-- The pieces of a string do not depend on what follows it. -/
def Parted (s : Bytes) : Prop :=
  ∃ v : Verdict (List Piece), ∀ r, pieces (s ++ 0x22 :: r) = v.piecesBefore r

theorem Stroke.length_lt {g : Bytes} (hg : Stroke g) (s : Bytes) :
    s.length < (g ++ s).length := by
  rw [List.length_append]
  cases hg <;> exact Nat.lt_add_of_pos_left (Nat.succ_pos _)

/-- A fault inside a string. -/
theorem fail_quoted (cause : Cause) (left r : Bytes) :
    fail cause (left ++ 0x22 :: r) =
      (Verdict.fault cause (left ++ [0x22])).piecesBefore r := by
  rw [Verdict.piecesBefore, Verdict.before, List.append_assoc]
  rfl

/-- After a leading surrogate there must be another escape. -/
theorem afterLead_plain {n : Nat} {x : UInt8} (hx : x ≠ 0x5C) (s : Bytes) :
    afterLead n (x :: s) = fail .endOfHexEscape s :=
  if_pos hx

theorem afterLead_letter {n : Nat} {e : UInt8} (he : e ≠ 0x75) (s : Bytes) :
    afterLead n (0x5C :: e :: s) = fail .endOfHexEscape s :=
  if_pos he

/-- The escape after a leading surrogate must be a trailing one. -/
theorem afterLead_code {a b c d : UInt8} {n m : Nat} (hm : hexUnit a b c d = some m)
    (hrange : ¬ (0xDC00 ≤ m ∧ m ≤ 0xDFFF)) (s : Bytes) :
    afterLead n (0x5C :: 0x75 :: a :: b :: c :: d :: s) = fail .loneSurrogate s := by
  have hother : m < 0xDC00 ∨ 0xDFFF < m := by omega
  simp [afterLead, hm, hother]

/-- A leading surrogate is judged together with the stroke after it. -/
theorem parted_lead {a b c d : UInt8} {n : Nat} {s : Bytes} (hn : hexUnit a b c d = some n)
    (hn₁ : 0xD800 ≤ n) (hn₂ : n ≤ 0xDBFF) (hs : Strokes s)
    (hparted : ∀ t : Bytes, t.length < s.length → Strokes t → Parted t) :
    Parted (0x5C :: 0x75 :: a :: b :: c :: d :: s) := by
  suffices h : ∃ v : Verdict (List Piece), ∀ r, afterLead n (s ++ 0x22 :: r) = v.piecesBefore r by
    obtain ⟨v, hv⟩ := h
    exact ⟨v, fun r => (pieces_lead hn hn₁ hn₂ _).trans (hv r)⟩
  cases hs with
  | nil => exact ⟨.fault .endOfHexEscape [], fun r => afterLead_plain (by decide) r⟩
  | @cons g s hg hs =>
    have hshorter := hg.length_lt s
    cases hg with
    | plain hb hquote hback => exact ⟨.fault .endOfHexEscape (s ++ [0x22]), fun r =>
        (afterLead_plain hback _).trans (fail_quoted _ s r)⟩
    | @letter e c he =>
      have hu : e ≠ 0x75 := by
        rintro rfl
        rw [shortEscape_u] at he
        cases he
      exact ⟨.fault .endOfHexEscape (s ++ [0x22]), fun r =>
        (afterLead_letter hu _).trans (fail_quoted _ s r)⟩
    | @code a' b' c' d' m hm =>
      by_cases hpair : 0xDC00 ≤ m ∧ m ≤ 0xDFFF
      · obtain ⟨v, hv⟩ := hparted s hshorter hs
        exact ⟨v.map _, fun r => (afterLead_pair hm hpair.1 hpair.2 _).trans
          (hv r ▸ before_piecesBefore (.escaped _) v r)⟩
      · exact ⟨.fault .loneSurrogate (s ++ [0x22]), fun r =>
          (afterLead_code hm hpair _).trans (fail_quoted _ s r)⟩

theorem parted_strokes {s : Bytes} (hs : Strokes s) : Parted s := by
  -- by the length, as a leading surrogate takes the stroke after it along
  induction hlength : s.length using Nat.strongRecOn generalizing s with
  | ind k ih =>
  subst hlength
  cases hs with
  | nil => exact ⟨.read [], pieces_quote⟩
  | @cons g s hg hs =>
    have hshorter := hg.length_lt s
    cases hg with
    | @plain b hb hquote hback =>
      obtain ⟨v, hv⟩ := ih s.length hshorter hs rfl
      refine ⟨v.map (.raw b (s ++ [0x22]) :: ·), fun r => ?_⟩
      rw [← before_piecesBefore, ← hv, Piece.followed, List.append_assoc s]
      exact pieces_plain hb hquote hback _
    | letter he =>
      obtain ⟨v, hv⟩ := ih s.length hshorter hs rfl
      exact ⟨v.map _, fun r => (pieces_letter he _).trans
        (hv r ▸ before_piecesBefore (.escaped _) v r)⟩
    | @code a b c d n hn =>
      by_cases hlow : 0xDC00 ≤ n ∧ n ≤ 0xDFFF
      · exact ⟨.fault .loneSurrogate (s ++ [0x22]), fun r =>
          (pieces_low hn hlow.1 hlow.2 _).trans (fail_quoted _ s r)⟩
      by_cases hhigh : 0xD800 ≤ n ∧ n ≤ 0xDBFF
      · exact parted_lead hn hhigh.1 hhigh.2 hs fun t ht hstrokes =>
          ih t.length (Nat.lt_trans ht hshorter) hstrokes rfl
      · obtain ⟨v, hv⟩ := ih s.length hshorter hs rfl
        exact ⟨v.map _, fun r => (pieces_code hn (by omega) _).trans
          (hv r ▸ before_piecesBefore (.escaped _) v r)⟩

/-! ## The characters of a string -/

theorem mapError_charBefore (n : Nat) (r : Bytes) (answer : Except Fault (List Char)) :
    (charBefore n answer).mapError (Fault.followed r) =
      charBefore n (answer.mapError (Fault.followed r)) := by
  cases answer <;> rfl

/-- What follows a string shows in the faults of its characters only. -/
theorem decodePieces_followed (ps : List Piece) (r : Bytes) :
    decodePieces (ps.map (Piece.followed r)) =
      (decodePieces ps).mapError (Fault.followed r) := by
  fun_induction decodePieces ps with
  | case1 => rfl
  | case2 c ps ih =>
    simp only [List.map_cons, Piece.followed, decodePieces, mapError_charBefore, ih]
  | case3 a after ps h1 ih =>
    rw [List.map_cons, Piece.followed, decodePieces.eq_def]
    simp only [h1, if_true, mapError_charBefore, ih]
  | case13 a after ps h1 h2 h3 h4 =>
    rw [List.map_cons, Piece.followed, decodePieces.eq_def]
    simp only [h1, h2, h3, h4, if_false, Bool.false_eq_true]
    rfl
  -- of a character of several bytes, some may be missing
  | case6 a after ps h1 h2 hshort =>
    rcases ps with _ | ⟨_ | _, _⟩
    case cons.raw => exact (hshort _ _ _ rfl).elim
    all_goals
      simp only [List.map_cons, List.map_nil, Piece.followed, decodePieces, if_true, if_false, *]
      rfl
  | case9 a after ps h1 h2 h3 hshort =>
    rcases ps with _ | ⟨_ | _, _ | ⟨_ | _, _⟩⟩
    case cons.raw.cons.raw => exact (hshort _ _ _ _ _ rfl).elim
    all_goals
      simp only [List.map_cons, List.map_nil, Piece.followed, decodePieces, if_true, if_false,
        Bool.false_eq_true, *]
      rfl
  | case12 a after ps h1 h2 h3 h4 hshort =>
    rcases ps with _ | ⟨_ | _, _ | ⟨_ | _, _ | ⟨_ | _, _⟩⟩⟩
    case cons.raw.cons.raw.cons.raw => exact (hshort _ _ _ _ _ _ _ rfl).elim
    all_goals
      simp only [List.map_cons, List.map_nil, Piece.followed, decodePieces, if_true, if_false,
        Bool.false_eq_true, *]
      rfl
  | _ =>
    simp only [List.map_cons, Piece.followed, decodePieces, mapError_charBefore, if_true,
      if_false, Bool.false_eq_true, *]
    try rfl

theorem error_charBefore {n : Nat} {answer : Except Fault (List Char)} {fault : Fault}
    (h : charBefore n answer = .error fault) : answer = .error fault := by
  cases answer with
  | error => exact h
  | ok => cases h

/-- The faults of characters lie where they were found. -/
theorem settled_decodePieces {ps : List Piece} {fault : Fault}
    (h : decodePieces ps = .error fault) : fault.settled = true := by
  fun_induction decodePieces ps with
  | case1 => cases h
  | case2 c ps ih | case3 a after ps h1 ih => exact ih (error_charBefore h)
  | case4 a after h1 h2 b after_1 ps h3 ih => exact ih (error_charBefore h)
  | case7 _ _ _ _ _ _ _ _ _ _ _ ih => exact ih (error_charBefore h)
  | case10 _ _ _ _ _ _ _ _ _ _ _ _ _ _ ih => exact ih (error_charBefore h)
  | _ =>
    cases h
    rfl

/-! ## Reading strings -/

/-- What a reader makes of a string does not depend on what follows it. -/
theorem readString_strokes {s : Bytes} (hs : Strokes s) :
    ∃ v, Makes (fun _ => True) readString (s ++ [0x22]) v := by
  obtain ⟨v, hv⟩ := parted_strokes hs
  have hquoted (r : Bytes) : (s ++ [0x22]) ++ r = s ++ 0x22 :: r := List.append_assoc s [0x22] r
  cases v with
  | fault cause left =>
    refine ⟨.fault cause left, fun r _ => ?_⟩
    rw [hquoted, readString, hv]
    rfl
  | read ps =>
    cases hd : decodePieces ps with
    | ok cs =>
      refine ⟨.read (String.ofList cs), fun r _ => ?_⟩
      have hdecoded := decodePieces_followed ps r
      rw [hd] at hdecoded
      rw [hquoted, readString, hv]
      exact congrArg (fun answer => answer >>= fun cs => pure (String.ofList cs, r)) hdecoded
    | error fault =>
      obtain ⟨cause, left, settled⟩ := fault
      obtain rfl : settled = true := settled_decodePieces hd
      refine ⟨.fault cause left, fun r _ => ?_⟩
      have hdecoded := decodePieces_followed ps r
      rw [hd] at hdecoded
      rw [hquoted, readString, hv]
      exact congrArg (fun answer => answer >>= fun cs => pure (String.ofList cs, r)) hdecoded

theorem skipString_strokes {s : Bytes} (hs : Strokes s) (r : Bytes) :
    skipString (s ++ 0x22 :: r) = .ok r := by
  induction hs with
  | nil => rw [List.nil_append, skipString.eq_def]; rfl
  | cons hg hs ih =>
    cases hg with
    | plain hb hquote hback =>
      rw [List.append_assoc, List.singleton_append, skipString.eq_def]
      simp [hquote, hback, UInt8.not_lt.mpr hb, ih]
    | letter he =>
      rw [List.append_assoc, skipString.eq_def]
      simp [he, ih]
    | code hn =>
      rw [List.append_assoc, skipString.eq_def]
      simp [shortEscape_u, hn, ih]

/-! ## Strings of characters -/

/-- Put before the rest of a string, the bytes are read as the character. -/
def Prefixes (c : Char) (g : Bytes) : Prop :=
  ∀ s ps rest, pieces s = .ok (ps, rest) →
    ∃ qs, pieces (g ++ s) = .ok (qs, rest) ∧
      decodePieces qs = charBefore c.toNat (decodePieces ps)

theorem isTail_iff {b : UInt8} : isTail b = true ↔ 0x80 ≤ b.toNat ∧ b.toNat ≤ 0xBF := by
  simp [isTail, UInt8.le_iff_toNat_le]

/-- A byte beyond ASCII stands for itself. -/
theorem plain_beyond {b : UInt8} (hb : 0x80 ≤ b.toNat) : 0x20 ≤ b ∧ b ≠ 0x22 ∧ b ≠ 0x5C := by
  refine ⟨UInt8.le_iff_toNat_le.mpr (Nat.le_trans (by decide) hb), ?_, ?_⟩
  · rintro rfl
    exact absurd hb (by decide)
  · rintro rfl
    exact absurd hb (by decide)

theorem pieces_beyond {b : UInt8} (hb : 0x80 ≤ b.toNat) (s : Bytes) :
    pieces (b :: s) = Piece.before (.raw b s) (pieces s) :=
  pieces_plain (plain_beyond hb).1 (plain_beyond hb).2.1 (plain_beyond hb).2.2 s

/-- The UTF-8 bytes of a character that stands for itself in a string, by the
number of the character. -/
inductive Utf8 (n : Nat) : Bytes → Prop
  | one {a : UInt8} : 0x20 ≤ a.toNat → a.toNat < 0x80 → a ≠ 0x22 → a ≠ 0x5C → n = a.toNat →
    Utf8 n [a]
  | two {a b : UInt8} : 0xC2 ≤ a.toNat → a.toNat ≤ 0xDF → isTail b = true →
    n = (a.toNat - 0xC0) * 0x40 + tailValue b → Utf8 n [a, b]
  | three {a b c : UInt8} : 0xE0 ≤ a.toNat → a.toNat ≤ 0xEF → isTail b = true → isTail c = true →
    (a.toNat = 0xE0 → 0xA0 ≤ b.toNat) → (a.toNat = 0xED → b.toNat ≤ 0x9F) →
    n = ((a.toNat - 0xE0) * 0x40 + tailValue b) * 0x40 + tailValue c → Utf8 n [a, b, c]
  | four {a b c d : UInt8} : 0xF0 ≤ a.toNat → a.toNat ≤ 0xF4 → isTail b = true →
    isTail c = true → isTail d = true →
    (a.toNat = 0xF0 → 0x90 ≤ b.toNat) → (a.toNat = 0xF4 → b.toNat ≤ 0x8F) →
    n = (((a.toNat - 0xF0) * 0x40 + tailValue b) * 0x40 + tailValue c) * 0x40 + tailValue d →
    Utf8 n [a, b, c, d]

theorem prefixes_utf8 {ch : Char} {g : Bytes} (hg : Utf8 ch.toNat g) : Prefixes ch g := by
  intro s ps rest hs
  cases hg with
  | @one a hblank ha hquote hback hch =>
    refine ⟨.raw a s :: ps, ?_, ?_⟩
    · rw [List.singleton_append, pieces_plain (UInt8.le_iff_toNat_le.mpr hblank) hquote hback, hs]
      rfl
    · rw [decodePieces.eq_def, hch]
      exact if_pos (UInt8.lt_iff_toNat_lt.mpr ha)
  | @two a b ha ha' hb hch =>
    have h1 : ¬ a.toNat < 0x80 := by omega
    refine ⟨.raw a (b :: s) :: .raw b s :: ps, ?_, ?_⟩
    · simp [pieces_beyond (Nat.not_lt.mp h1), pieces_beyond (isTail_iff.mp hb).1, hs,
        Piece.before]
    · rw [decodePieces.eq_def, hch]
      simp [UInt8.lt_iff_toNat_lt, UInt8.le_iff_toNat_le, h1, ha, ha', hb]
  | @three a b c ha ha' hb hc hlow hhigh hch =>
    have h1 : ¬ a.toNat < 0x80 := by omega
    have h2 : ¬ a.toNat ≤ 0xDF := by omega
    refine ⟨.raw a (b :: c :: s) :: .raw b (c :: s) :: .raw c s :: ps, ?_, ?_⟩
    · simp [pieces_beyond (Nat.not_lt.mp h1), pieces_beyond (isTail_iff.mp hb).1,
        pieces_beyond (isTail_iff.mp hc).1, hs, Piece.before]
    · rw [decodePieces.eq_def, hch]
      simp [UInt8.lt_iff_toNat_lt, UInt8.le_iff_toNat_le, ← UInt8.toNat_inj, h1, h2, ha, ha', hb,
        hc]
      omega
  | @four a b c d ha ha' hb hc hd hlow hhigh hch =>
    have h1 : ¬ a.toNat < 0x80 := by omega
    have h2 : ¬ a.toNat ≤ 0xDF := by omega
    have h3 : ¬ a.toNat ≤ 0xEF := by omega
    refine ⟨.raw a (b :: c :: d :: s) :: .raw b (c :: d :: s) :: .raw c (d :: s) :: .raw d s :: ps,
      ?_, ?_⟩
    · simp [pieces_beyond (Nat.not_lt.mp h1), pieces_beyond (isTail_iff.mp hb).1,
        pieces_beyond (isTail_iff.mp hc).1, pieces_beyond (isTail_iff.mp hd).1, hs, Piece.before]
    · rw [decodePieces.eq_def, hch]
      simp [UInt8.lt_iff_toNat_lt, UInt8.le_iff_toNat_le, ← UInt8.toNat_inj, h1, h2, h3, ha, ha',
        hb, hc, hd]
      omega

theorem toNat_tail (n : Nat) : (UInt8.ofNat (n % 64 + 128)).toNat = n % 64 + 128 :=
  UInt8.toNat_ofNat_of_lt' (by unfold UInt8.size; omega)

theorem isTail_tail (n : Nat) : isTail (.ofNat (n % 64 + 128)) = true := by
  rw [isTail_iff, toNat_tail]
  omega

theorem tailValue_tail (n : Nat) : tailValue (.ofNat (n % 64 + 128)) = n % 64 := by
  unfold tailValue
  rw [toNat_tail]
  exact Nat.add_sub_cancel _ _

theorem utf8_encode {c : Char} (hblank : 0x20 ≤ c.toNat) (hquote : c ≠ '"')
    (hback : c ≠ '\\') : Utf8 c.toNat (String.utf8EncodeChar c) := by
  have hvalid : c.toNat < 0xD800 ∨ 0xDFFF < c.toNat ∧ c.toNat < 0x110000 := c.valid
  have hquote' : c.toNat ≠ 0x22 := fun h => hquote (Char.toNat_inj.mp h)
  have hback' : c.toNat ≠ 0x5C := fun h => hback (Char.toNat_inj.mp h)
  have hv : c.val.toNat = c.toNat := rfl
  unfold String.utf8EncodeChar
  rw [hv]
  dsimp only
  split
  · have ha : (UInt8.ofNat c.toNat).toNat = c.toNat :=
      UInt8.toNat_ofNat_of_lt' (by unfold UInt8.size; omega)
    refine .one (by omega) (by omega) ?_ ?_ ha.symm
    · rw [ne_eq, ← UInt8.toNat_inj, ha]
      exact hquote'
    · rw [ne_eq, ← UInt8.toNat_inj, ha]
      exact hback'
  split
  · have ha : (UInt8.ofNat (c.toNat / 64 % 32 + 192)).toNat = c.toNat / 64 % 32 + 192 :=
      UInt8.toNat_ofNat_of_lt' (by unfold UInt8.size; omega)
    refine .two ?_ ?_ (isTail_tail _) ?_
    all_goals rw [ha]
    · omega
    · omega
    · rw [tailValue_tail]
      omega
  split
  · have ha : (UInt8.ofNat (c.toNat / 4096 % 16 + 224)).toNat = c.toNat / 4096 % 16 + 224 :=
      UInt8.toNat_ofNat_of_lt' (by unfold UInt8.size; omega)
    refine .three ?_ ?_ (isTail_tail _) (isTail_tail _) ?_ ?_ ?_
    all_goals rw [ha]
    · omega
    · omega
    · rw [toNat_tail]
      omega
    · rw [toNat_tail]
      omega
    · rw [tailValue_tail, tailValue_tail]
      omega
  · have ha : (UInt8.ofNat (c.toNat / 262144 % 8 + 240)).toNat = c.toNat / 262144 % 8 + 240 :=
      UInt8.toNat_ofNat_of_lt' (by unfold UInt8.size; omega)
    refine .four ?_ ?_ (isTail_tail _) (isTail_tail _) (isTail_tail _) ?_ ?_ ?_
    all_goals rw [ha]
    · omega
    · omega
    · rw [toNat_tail]
      omega
    · rw [toNat_tail]
      omega
    · rw [tailValue_tail, tailValue_tail, tailValue_tail]
      omega

/-! ## Characters are strokes -/

theorem Strokes.append {s t : Bytes} (hs : Strokes s) (ht : Strokes t) : Strokes (s ++ t) := by
  induction hs with
  | nil => exact ht
  | cons hg _ ih => exact List.append_assoc _ _ t ▸ .cons hg ih

theorem strokes_of_forall {s : Bytes} (h : ∀ b ∈ s, 0x20 ≤ b ∧ b ≠ 0x22 ∧ b ≠ 0x5C) :
    Strokes s := by
  induction s with
  | nil => exact .nil
  | cons b s ih =>
    obtain ⟨⟨hblank, hquote, hback⟩, hs⟩ := List.forall_mem_cons.mp h
    exact .cons (.plain hblank hquote hback) (ih hs)

theorem Utf8.strokes {n : Nat} {g : Bytes} (hg : Utf8 n g) : Strokes g := by
  have htail {b : UInt8} (hb : isTail b = true) : 0x20 ≤ b ∧ b ≠ 0x22 ∧ b ≠ 0x5C :=
    plain_beyond (isTail_iff.mp hb).1
  apply strokes_of_forall
  cases hg with
  | one hblank _ hquote hback =>
    exact List.forall_mem_singleton.mpr ⟨UInt8.le_iff_toNat_le.mpr hblank, hquote, hback⟩
  | two ha _ hb =>
    simp only [List.forall_mem_cons, List.not_mem_nil, false_imp_iff, implies_true, and_true]
    exact ⟨plain_beyond (by omega), htail hb⟩
  | three ha _ hb hc =>
    simp only [List.forall_mem_cons, List.not_mem_nil, false_imp_iff, implies_true, and_true]
    exact ⟨plain_beyond (by omega), htail hb, htail hc⟩
  | four ha _ hb hc hd =>
    simp only [List.forall_mem_cons, List.not_mem_nil, false_imp_iff, implies_true, and_true]
    exact ⟨plain_beyond (by omega), htail hb, htail hc, htail hd⟩

theorem Glyph.strokes {c : Char} {g : Bytes} (hg : Glyph c g) : Strokes g := by
  cases hg with
  | plain hblank hquote hback => exact (utf8_encode hblank hquote hback).strokes
  | letter he => exact .cons (.letter he) .nil
  | code hn => exact .cons (.code hn) .nil
  | surrogates hn _ _ hm => exact .cons (.code hn) (.cons (.code hm) .nil)

theorem Glyphs.strokes {cs : List Char} {s : Bytes} (hs : Glyphs cs s) : Strokes s := by
  induction hs with
  | nil => exact .nil
  | cons hg _ ih => exact hg.strokes.append ih

theorem prefixes_glyph {c : Char} {g : Bytes} (hg : Glyph c g) : Prefixes c g := by
  cases hg with
  | plain hblank hquote hback => exact prefixes_utf8 (utf8_encode hblank hquote hback)
  | letter he =>
    intro s ps rest hs
    exact ⟨.escaped c :: ps, (pieces_letter he s).trans (by rw [hs]; rfl), rfl⟩
  | code hn hrange =>
    intro s ps rest hs
    exact ⟨.escaped _ :: ps, (pieces_code hn hrange s).trans (by rw [hs]; rfl), rfl⟩
  | surrogates hn hn₁ hn₂ hm hm₁ hm₂ =>
    intro s ps rest hs
    refine ⟨.escaped _ :: ps, ?_, rfl⟩
    refine (pieces_lead hn hn₁ hn₂ _).trans ((afterLead_pair hm hm₁ hm₂ s).trans ?_)
    rw [hs]
    rfl

/-- A string of characters is read as the text of these characters. -/
theorem readString_glyphs {cs : List Char} {s : Bytes} (hs : Glyphs cs s) (r : Bytes) :
    readString (s ++ 0x22 :: r) = .ok (String.ofList cs, r) := by
  have hread : ∃ ps, pieces (s ++ 0x22 :: r) = .ok (ps, r) ∧ decodePieces ps = .ok cs := by
    induction hs with
    | nil => exact ⟨[], pieces_quote r, rfl⟩
    | @cons c cs g s hg hs ih =>
      obtain ⟨ps, hps, hcs⟩ := ih
      obtain ⟨qs, hqs, hdecode⟩ := prefixes_glyph hg _ _ _ hps
      refine ⟨qs, (List.append_assoc g s _).symm ▸ hqs, ?_⟩
      rw [hdecode, hcs, charBefore, Char.ofNat_toNat]
  obtain ⟨ps, hps, hcs⟩ := hread
  rw [readString, hps]
  exact congrArg (fun answer => answer >>= fun cs => pure (String.ofList cs, r)) hcs

end RecordDispatch.Json
