import Rehearsal.Json.Value
/-!
# What is left to libraries

Which texts are regular expressions is known to a library, and so are the words for what is wrong
with a text or a document.

* `Libraries`: the answers of these libraries. They are inferred where they are asked for, so
  **what is stated of a program that asks for them is stated for all answers**.
* `Libraries.Lenient`: answers to compute with, for texts with which nothing is wrong. They are
  inferred only where this namespace is open.
-/

namespace Rehearsal

/-- What libraries answer. -/
class Libraries where
  /-- What is wrong with a text as a regular expression; nothing if it is one. -/
  patternFault : String → Option String
  /-- What is wrong with a text that is no JSON. -/
  jsonFault : String → String
  /-- What is wrong with a document that is no report. -/
  reportFault : Json.Value → String
  /-- What is wrong with a text that holds no bundle. -/
  bundleFault : String → String
  /-- What is wrong with a text that holds no settings. -/
  settingsFault : String → String
  /-- What is wrong with a text that is no identifier. -/
  uuidFault : String → String

namespace Libraries.Lenient

/-- There is nothing wrong with a pattern, and nothing to say of what is wrong elsewhere. -/
scoped instance : Libraries where
  patternFault _ := none
  jsonFault _ := ""
  reportFault _ := ""
  bundleFault _ := ""
  settingsFault _ := ""
  uuidFault _ := ""

end Libraries.Lenient

end Rehearsal
