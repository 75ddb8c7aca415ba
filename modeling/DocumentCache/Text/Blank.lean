/-!
# Blanks and words

The characters that separate words: the ASCII controls from tab to carriage return,
the space, and the other spaces and line separators of Unicode.
-/

namespace DocumentCache.Text

def isBlank (letter : Char) : Bool :=
  let code := letter.toNat
  (0x09 ≤ code && code ≤ 0x0D) || code == 0x20 || code == 0x85 || code == 0xA0
    || code == 0x1680 || (0x2000 ≤ code && code ≤ 0x200A) || code == 0x2028
    || code == 0x2029 || code == 0x202F || code == 0x205F || code == 0x3000

/-- The words of a text, `word` being the letters read of the first, last letter
first. -/
def wordsAfter (word : List Char) : List Char → List (List Char)
  | [] => if word.isEmpty then [] else [word.reverse]
  | letter :: rest =>
      if isBlank letter then
        if word.isEmpty then wordsAfter [] rest else word.reverse :: wordsAfter [] rest
      else wordsAfter (letter :: word) rest

/-- The longest runs without a blank. -/
def words (text : String) : List String :=
  (wordsAfter [] text.toList).map String.ofList

/-- A word ends at a blank, and the words behind it are those of what follows. -/
theorem wordsAfter_append_blank (word front : List Char) {blank : Char}
    (hblank : isBlank blank = true) (rest : List Char) :
    wordsAfter word (front ++ blank :: rest) = wordsAfter word front ++ wordsAfter [] rest := by
  induction front generalizing word with
  | nil =>
      simp only [List.nil_append, wordsAfter, hblank, if_true]
      split <;> rfl
  | cons letter front ih =>
      simp only [List.cons_append, wordsAfter, ih]
      split
      · split <;> rfl
      · rfl

/-- Letters that are no blanks go on with a word. -/
theorem wordsAfter_of_letters {letters : List Char}
    (h : ∀ letter ∈ letters, isBlank letter = false) (word : List Char) :
    wordsAfter word letters = wordsAfter (letters.reverse ++ word) [] := by
  induction letters generalizing word with
  | nil => rfl
  | cons letter letters ih =>
      obtain ⟨hletter, hletters⟩ := List.forall_mem_cons.mp h
      have hstep : wordsAfter word (letter :: letters) = wordsAfter (letter :: word) letters := by
        simp only [wordsAfter, hletter, Bool.false_eq_true, if_false]
      rw [hstep, ih hletters, List.reverse_cons, List.append_assoc, List.singleton_append]

theorem words_append_blank (front : String) {blank : String} {letter : Char}
    (hblank : blank.toList = [letter]) (hletter : isBlank letter = true) (rest : String) :
    words (front ++ (blank ++ rest)) = words front ++ words rest := by
  rw [words, String.toList_append, String.toList_append, hblank, List.singleton_append,
    wordsAfter_append_blank _ _ hletter, List.map_append]
  rfl

theorem words_of_letters {word : String} (hsome : word ≠ "")
    (h : ∀ letter ∈ word.toList, isBlank letter = false) : words word = [word] := by
  have hletters : word.toList.reverse.isEmpty = false := by
    rw [List.isEmpty_reverse, List.isEmpty_eq_false_iff, ne_eq, String.toList_eq_nil_iff]
    exact hsome
  rw [words, wordsAfter_of_letters h, List.append_nil, wordsAfter, hletters,
    if_neg Bool.false_ne_true, List.reverse_reverse, List.map_singleton, String.ofList_toList]

end DocumentCache.Text
