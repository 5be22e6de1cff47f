/-!
# White space

The white space of every script, and the three ways in which texts are cut at it: taking it off
the ends (`strip`), cutting a text into its words (`words`) and splitting off the first word
(`firstWord?`). `wordsOf_of_blank` and `wordsOf_of_firstWord?` are the equations of `words`.
-/

namespace XmlMacros.Text

/-- The ranges of code points that are white space, in increasing order. -/
def blankRanges : List (Nat × Nat) :=
  [(0x9, 0xD), (0x1C, 0x20), (0x85, 0x85), (0xA0, 0xA0), (0x1680, 0x1680), (0x2000, 0x200A),
  (0x2028, 0x2029), (0x202F, 0x202F), (0x205F, 0x205F), (0x3000, 0x3000)]

/-- Whether the character is white space. -/
def isBlank (c : Char) : Bool :=
  blankRanges.any fun (lo, hi) => lo ≤ c.toNat && c.toNat ≤ hi

/-- Whether a text has no character other than white space. The empty text counts. -/
def isBlankText (s : String) : Bool :=
  s.toList.all isBlank

/-- The text without the white space at its start. -/
def dropBlanks (cs : List Char) : List Char :=
  cs.dropWhile isBlank

/-- The text without the white space at its two ends. -/
def strip (s : String) : String :=
  String.ofList (dropBlanks (dropBlanks s.toList).reverse).reverse

/-- The first word of a text, and the text after it without the white space that follows the
word. A blank text has none. -/
def firstWord? (cs : List Char) : Option (List Char × List Char) :=
  match dropBlanks cs with
  | [] => none
  | c :: rest =>
    some (c :: rest.takeWhile (!isBlank ·), dropBlanks (rest.dropWhile (!isBlank ·)))

/-- Splitting off a word leaves a shorter text. -/
theorem length_lt_of_firstWord? {cs w rest : List Char} (h : firstWord? cs = some (w, rest)) :
    rest.length < cs.length := by
  have h₁ := (cs.dropWhile_sublist isBlank).length_le
  rw [firstWord?, dropBlanks] at h
  split at h
  · simp at h
  · rename_i c tail hd
    rw [hd, List.length_cons] at h₁
    have h₂ := (tail.dropWhile_sublist (!isBlank ·)).length_le
    have h₃ := ((tail.dropWhile (!isBlank ·)).dropWhile_sublist isBlank).length_le
    simp only [Option.some.injEq, Prod.mk.injEq] at h
    rw [← h.2, dropBlanks]
    omega

/-- Cuts a text into its maximal runs of characters that are not white space. -/
def wordsOf (cs : List Char) : List (List Char) :=
  match _h : firstWord? cs with
  | none => []
  | some (w, rest) => w :: wordsOf rest
termination_by cs.length
decreasing_by exact length_lt_of_firstWord? _h

/-- The words of a text: its maximal runs of characters that are not white space. -/
def words (s : String) : List String :=
  (wordsOf s.toList).map String.ofList

/-- A blank text has no words. -/
theorem wordsOf_of_blank {cs : List Char} (h : firstWord? cs = none) : wordsOf cs = [] := by
  rw [wordsOf]; split <;> simp_all

/-- The words of a text are its first one and those of what follows it. -/
theorem wordsOf_of_firstWord? {cs w rest : List Char} (h : firstWord? cs = some (w, rest)) :
    wordsOf cs = w :: wordsOf rest := by
  rw [wordsOf]; split <;> simp_all

end XmlMacros.Text
