/-!
# Splitting text

A text is cut at every occurrence of a separator, so it has one piece more than
it has separators; pieces may be empty.
-/

namespace DocumentCache.Text

/-- The pieces of a text between its separators. -/
def split (separator : Char) : List Char → List (List Char)
  | [] => [[]]
  | letter :: rest =>
      if letter = separator then [] :: split separator rest
      else
        match split separator rest with
        | [] => [[letter]]
        | piece :: pieces => (letter :: piece) :: pieces

/-- The text before the first separator and the text after it, if there is one. -/
def splitFirst? (separator : Char) : List Char → Option (List Char × List Char)
  | [] => none
  | letter :: rest =>
      if letter = separator then some ([], rest)
      else (splitFirst? separator rest).map fun cut => (letter :: cut.1, cut.2)

/-- A text without the given character at its two ends. -/
def trim (letter : Char) (text : List Char) : List Char :=
  ((text.dropWhile (· = letter)).reverse.dropWhile (· = letter)).reverse

theorem split_ne_nil (separator : Char) (text : List Char) : split separator text ≠ [] := by
  cases text with
  | nil => simp [split]
  | cons letter rest =>
      unfold split
      split
      · simp
      · split <;> simp

end DocumentCache.Text
