/-!
# Blank characters

Which characters separate words, and the two operations that depend on nothing else.

* `isBlank`: the class White_Space of the Unicode character database. It is wider than
  `Char.isWhitespace`, which knows four ASCII characters.
* `trim`: a text without the blanks at its two ends.
* `singleLine`: the words of a text with **one** space between neighbours and none at
  the ends. No line break of any kind survives, since every one of them is blank.
-/

namespace Rehearsal.Text

/-- White space in the sense of the Unicode character database. -/
def isBlank (c : Char) : Bool :=
  let n := c.toNat
  (9 ≤ n && n ≤ 13) || n == 0x20 || n == 0x85 || n == 0xA0 || n == 0x1680
    || (0x2000 ≤ n && n ≤ 0x200A) || n == 0x2028 || n == 0x2029 || n == 0x202F
    || n == 0x205F || n == 0x3000

/-- Blanks are dropped from the front. -/
def trimLeft (cs : List Char) : List Char := cs.dropWhile isBlank

/-- Blanks are dropped from both ends. -/
def trim (s : String) : String :=
  String.ofList (trimLeft (trimLeft s.toList).reverse).reverse

/-- One space for each run of blanks between two words. `started` tells whether a word
came before, `gap` whether a blank came since. -/
def singleLineFrom (started gap : Bool) : List Char → List Char
  | [] => []
  | c :: rest =>
    if isBlank c then singleLineFrom started true rest
    else if started && gap then ' ' :: c :: singleLineFrom true false rest
    else c :: singleLineFrom true false rest

/-- The words of a text on one line, one space apart. -/
def singleLine (s : String) : String := String.ofList (singleLineFrom false false s.toList)

/-- The words of a text: its maximal runs of characters that are not blank. -/
def wordsFrom (word : List Char) : List Char → List (List Char)
  | [] => if word.isEmpty then [] else [word.reverse]
  | c :: rest =>
    if isBlank c then
      if word.isEmpty then wordsFrom [] rest else word.reverse :: wordsFrom [] rest
    else wordsFrom (c :: word) rest

/-- The words of a text, in order. -/
def words (s : String) : List String := (wordsFrom [] s.toList).map String.ofList

end Rehearsal.Text
