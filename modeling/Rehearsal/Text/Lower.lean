/-!
# Words without regard to case

* `lower`: a text in small letters, as far as the result can be one of the words this library
  compares it with, all of them ASCII. Beyond ASCII only the Kelvin sign has an ASCII letter
  as its small form; every other character stays, and with it the text equals no such word.
-/

namespace Rehearsal.Text

/-- The small form of a character. -/
def lowerChar (c : Char) : Char := if c.toNat = 0x212A then 'k' else c.toLower

/-- A text in small letters. -/
def lower (s : String) : String := String.ofList (s.toList.map lowerChar)

end Rehearsal.Text
