import DocumentCache.Text.Extending
import DocumentCache.Text.Unprintable

/-!
# Quoted text

A text between quotation marks, with a backslash before marks and backslashes, with
letters for the usual controls, and with a code in braces for every other character
that cannot be seen by itself.
-/

namespace DocumentCache.Text

/-- The hexadecimal digits of a number, without leading zeros. -/
def hexDigits (n : Nat) : List Char := Nat.toDigits 16 n

/-- How one character stands between quotation marks. -/
def quotedLetter (letter : Char) : List Char :=
  if letter = '\x00' then ['\\', '0']
  else if letter = '\t' then ['\\', 't']
  else if letter = '\r' then ['\\', 'r']
  else if letter = '\n' then ['\\', 'n']
  else if letter = '"' then ['\\', '"']
  else if letter = '\\' then ['\\', '\\']
  else if isExtending letter || isUnprintable letter then
    ['\\', 'u', '\x7b'] ++ hexDigits letter.toNat ++ ['\x7d']
  else [letter]

def quoted (text : String) : String :=
  String.ofList ('"' :: text.toList.flatMap quotedLetter ++ ['"'])

end DocumentCache.Text
