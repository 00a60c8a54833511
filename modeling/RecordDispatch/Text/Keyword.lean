/-!
# Blanks and keywords

The blanks are the characters with the Unicode property `White_Space`.
`trim` removes them from both ends of a text.  A setting that is one of a few
words may be written with blanks around it and in any letter case: `keyword`
says which word it is.
-/

namespace RecordDispatch.Text

/-- The characters with the property `White_Space`. -/
def isBlank (c : Char) : Bool :=
  let n := c.toNat
  (9 ≤ n && n ≤ 13) || n == 0x20 || n == 0x85 || n == 0xA0 || n == 0x1680 ||
    (0x2000 ≤ n && n ≤ 0x200A) || n == 0x2028 || n == 0x2029 || n == 0x202F ||
    n == 0x205F || n == 0x3000

/-- The characters of a text without the blanks at its two ends. -/
def trimChars (cs : List Char) : List Char :=
  ((cs.dropWhile isBlank).reverse.dropWhile isBlank).reverse

/-- A text without the blanks at its two ends. -/
def trim (s : String) : String :=
  String.ofList (trimChars s.toList)

/-- Whether a text holds nothing but blanks. -/
def isAllBlank (s : String) : Bool :=
  s.toList.all isBlank

/-- The keyword that a text spells: no blanks at its ends, and Latin letters in
lower case.  Other letters stay as they are.  This is enough to compare with
keywords of Latin letters other than `k`, because no other foreign letter has
a Latin lower-case form. -/
def keyword (s : String) : String :=
  String.ofList ((trimChars s.toList).map Char.toLower)

end RecordDispatch.Text
