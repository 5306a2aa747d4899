import Mathlib
import Rehearsal.Source.PageObject
import Rehearsal.Proofs.Json.Number
import Rehearsal.Proofs.Source.Settings
import Rehearsal.Proofs.Text.Comment
import Rehearsal.Proofs.Text.Name

/-!
# The lines of a class file

A class file is read line by line, and each line says one thing.  This file is the reader, and
what it makes of the lines that are written.

* `Keyword`: the kind of a line, by the fixed text that it begins with behind its indentation.
  **No such text is the beginning of another** (`Keyword.eq_of_begins`).
* `Clause`: what a line says, with the names, literals and numbers in it.
* `Clause.read`: the reader.  It takes **the whole line or nothing**: a name is made of letters,
  digits and underscores, a literal ends at its closing mark, a comment at its first end mark.
* `Means`: a line that is read as a clause, and is not broken.

The rest of the file is one lemma for each line that is written.
-/

namespace Rehearsal.Source

open Text

/-! ## Kinds of lines -/

/-- What every class file imports. -/
def imported : List String := ["Page", "Locator", "FrameLocator"]

/-- The kinds of lines that are not blank. -/
inductive Keyword where
  | imports
  | comment
  | opens
  | pattern
  | constructs
  | gets
  | returns
  | prepares
  | awaits
  | closes
deriving DecidableEq

namespace Keyword

/-- What a line begins with. -/
def opening : Keyword → String
  | imports => "import \x7b " ++ Json.joinWith ", " (imported.map ("type " ++ ·))
      ++ " \x7d from '@playwright/test';"
  | comment => "/** "
  | opens => "export class "
  | pattern => "static readonly URL_PATTERN = "
  | constructs => "constructor(private readonly page: Page) \x7b\x7d"
  | gets => "get "
  | returns => "return this.page."
  | prepares => "async waitUntilReady(): Promise<void> \x7b"
  | awaits => "await this.page.locator("
  | closes => "\x7d"

/-- Every kind. -/
def all : List Keyword :=
  [imports, comment, opens, pattern, constructs, gets, returns, prepares, awaits, closes]

lemma mem_all (k : Keyword) : k ∈ all := by
  cases k <;> decide

/-- The kind of a line, and what stands behind its beginning. -/
def read? (line : List Char) : Option (Keyword × List Char) :=
  all.findSome? fun k => (Json.expect? k.opening.toList line).map (k, ·)

/-- **No beginning is the beginning of another.** -/
lemma eq_of_begins (a b : Keyword) (h : a.opening.toList <+: b.opening.toList) : a = b := by
  have hall : ∀ a ∈ all, ∀ b ∈ all, a.opening.toList <+: b.opening.toList → a = b := by
    decide +kernel
  exact hall a a.mem_all b b.mem_all h

/-- The beginning of a line settles its kind, whatever follows. -/
lemma read?_append (k : Keyword) (rest : List Char) :
    read? (k.opening.toList ++ rest) = some (k, rest) := by
  have hself : Json.expect? k.opening.toList (k.opening.toList ++ rest) = some rest :=
    Json.expect?_append _ _
  have hsome : (read? (k.opening.toList ++ rest)).isSome := by
    rw [read?, List.findSome?_isSome_iff]
    exact ⟨k, k.mem_all, by rw [hself]; rfl⟩
  obtain ⟨⟨j, r⟩, hread⟩ := Option.isSome_iff_exists.mp hsome
  obtain ⟨i, -, hi⟩ := List.exists_of_findSome?_eq_some hread
  obtain ⟨r', hexpect, hir⟩ := Option.map_eq_some_iff.mp hi
  obtain ⟨rfl, rfl⟩ := Prod.mk.inj hir
  have hbegins := Json.eq_append_of_expect? hexpect
  have hik : i = k := by
    have hi : i.opening.toList <+: k.opening.toList ++ rest := ⟨r', hbegins.symm⟩
    rcases List.prefix_or_prefix_of_prefix hi (List.prefix_append _ rest) with hp | hp
    · exact eq_of_begins i k hp
    · exact (eq_of_begins k i hp).symm
  subst hik
  rw [hread, List.append_cancel_left hbegins]

end Keyword

/-! ## What lines say -/

/-- What is waited for: a locator, the state it should come to, and how long. -/
structure Awaited where
  locator : String
  state : String
  milliseconds : Nat
deriving DecidableEq

/-- What a line says. -/
inductive Clause where
  | blank
  | imports
  | comment
  | opens (name : String)
  | pattern (text : String)
  | constructs
  | gets (name type : String)
  | returns (method text : String)
  | prepares
  | awaits (a : Awaited)
  | closes
deriving DecidableEq

/-- The characters of names. -/
def isNameChar (c : Char) : Bool := isAlnum c || c == '_'

/-- A name at the front. -/
def name? (cs : List Char) : Option (String × List Char) :=
  if (cs.takeWhile isNameChar).isEmpty then none
  else some (String.ofList (cs.takeWhile isNameChar), cs.dropWhile isNameChar)

/-- The text of a literal at the front. -/
def literal? (cs : List Char) : Option (String × List Char) :=
  (Literal.read cs).map fun q => (String.ofList q.1, q.2)

/-- A number at the front. -/
def natural? (cs : List Char) : Option (Nat × List Char) :=
  let (ds, rest) := Json.takeDigits cs
  if ds.isEmpty then none else some (Json.Numeral.ofDigits ds, rest)

/-- What a line says that ends with a fixed text. -/
def ended (behind : String) (c : Clause) (rest : List Char) : Option Clause :=
  if rest = behind.toList then some c else none

/-- What a line of a kind says, by what stands behind its beginning. -/
def Keyword.body : Keyword → List Char → Option Clause
  | imports, rest => ended "" .imports rest
  | comment, rest => if afterEnd rest = some [] then some .comment else none
  | opens, rest => do
    let (name, rest) ← name? rest
    ended " \x7b" (.opens name) rest
  | pattern, rest => do
    let (text, rest) ← literal? rest
    ended ";" (.pattern text) rest
  | constructs, rest => ended "" .constructs rest
  | gets, rest => do
    let (name, rest) ← name? rest
    let rest ← Json.expect? "(): ".toList rest
    let (type, rest) ← name? rest
    ended " \x7b" (.gets name type) rest
  | returns, rest => do
    let (method, rest) ← name? rest
    let rest ← Json.expect? "(".toList rest
    let (text, rest) ← literal? rest
    ended ");" (.returns method text) rest
  | prepares, rest => ended "" .prepares rest
  | awaits, rest => do
    let (locator, rest) ← literal? rest
    let rest ← Json.expect? ").waitFor(\x7b state: ".toList rest
    let (state, rest) ← literal? rest
    let rest ← Json.expect? ", timeout: ".toList rest
    let (milliseconds, rest) ← natural? rest
    ended " \x7d);" (.awaits ⟨locator, state, milliseconds⟩) rest
  | closes, rest => ended "" .closes rest

/-- What a line says, its indentation apart. -/
def Clause.read (line : List Char) : Option Clause :=
  if line.isEmpty then some .blank
  else do
    let (k, rest) ← Keyword.read? line
    k.body rest

/-! ## Parts of lines -/

/-- A text that is read as a name. -/
structure Named (name : String) : Prop where
  ne_empty : name ≠ ""
  chars : ∀ c ∈ name.toList, isNameChar c = true

instance (name : String) : Decidable (Named name) :=
  have : Decidable (∀ c ∈ name.toList, isNameChar c = true) := List.decidableBAll _ _
  decidable_of_iff (name ≠ "" ∧ ∀ c ∈ name.toList, isNameChar c = true)
    ⟨fun h => ⟨h.1, h.2⟩, fun h => ⟨h.1, h.2⟩⟩

lemma name?_append {name : String} {rest : List Char} (h : Named name)
    (hrest : Json.Stops isNameChar rest) : name? (name.toList ++ rest) = some (name, rest) := by
  rw [name?, Json.takeWhile_append_stop h.chars hrest, Json.dropWhile_append_stop h.chars hrest,
    if_neg, String.ofList_toList]
  simpa using h.ne_empty

/-- The characters of names are no line ends. -/
lemma Named.unbroken {name : String} (h : Named name) : Unbroken name := by
  intro c hc
  have hname := h.chars c hc
  constructor <;> rintro rfl <;> exact absurd hname (by decide)

lemma literal?_append (s : String) (rest : List Char) :
    literal? ((quote s).toList ++ rest) = some (s, rest) := by
  rw [literal?, quote, String.toList_ofList, Literal.read_quoteChars_append, Option.map_some,
    String.ofList_toList]

lemma natural?_append (n : Nat) {rest : List Char} (hrest : Json.Stops Char.isDigit rest) :
    natural? ((Json.Number.digits n).toList ++ rest) = some (n, rest) := by
  have hsome : (Json.Numeral.digitsOf n).isEmpty = false :=
    List.isEmpty_eq_false_iff.mpr (Json.Numeral.digitsOf_ne_nil n)
  simp only [natural?, Json.takeDigits_digits n hrest, hsome, Bool.false_eq_true, if_false,
    Json.Numeral.ofDigits_digitsOf]

lemma ended_self (behind : String) (c : Clause) : ended behind c behind.toList = some c :=
  if_pos rfl

/-! ## Indentation -/

/-- Spaces and tabs. -/
def isIndent (c : Char) : Bool := c == ' ' || c == '\t'

/-- A line without its indentation. -/
def unindented (line : List Char) : List Char := line.dropWhile isIndent

/-- A line that says one thing. -/
def Means (line : String) (c : Clause) : Prop :=
  Unbroken line ∧ Clause.read (unindented line.toList) = some c

section lines

variable {style : Style}

lemma forall_mem_pad {P : Char → Prop} (h : ∀ c ∈ style.indent.toList, P c) (depth : Nat) :
    ∀ c ∈ (style.pad depth).toList, P c := by
  induction depth with
  | zero => exact fun _ hc => absurd hc List.not_mem_nil
  | succ depth ih =>
      rw [Style.pad, String.toList_append]
      exact List.forall_mem_append.mpr ⟨h, ih⟩

lemma unbroken_pad (hindent : ∀ c ∈ style.indent.toList, isIndent c = true) (depth : Nat) :
    Unbroken (style.pad depth) := by
  refine forall_mem_pad (fun c hc => ?_) depth
  have hc' := hindent c hc
  constructor <;> rintro rfl <;> exact absurd hc' (by decide)

/-- No line begins with a space but by its indentation. -/
lemma head_opening : ∀ k : Keyword, ∃ c cs, k.opening.toList = c :: cs ∧ isIndent c = false := by
  intro k
  cases k <;> exact ⟨_, _, rfl, by decide⟩

/-- A line of a kind says what its body says. -/
lemma means_line (hindent : ∀ c ∈ style.indent.toList, isIndent c = true) (depth : Nat)
    (k : Keyword) {rest : String} {c : Clause} (hrest : Unbroken rest)
    (hbody : k.body rest.toList = some c) : Means (style.line depth (k.opening ++ rest)) c := by
  obtain ⟨d, ds, hopening, hd⟩ := head_opening k
  refine ⟨?_, ?_⟩
  · have hopening : Unbroken k.opening := by
      cases k <;> decide
    exact unbroken_append.mpr
      ⟨unbroken_pad hindent depth, unbroken_append.mpr ⟨hopening, hrest⟩⟩
  · have hpad : unindented (style.line depth (k.opening ++ rest)).toList
        = k.opening.toList ++ rest.toList := by
      rw [Style.line, String.toList_append, String.toList_append, unindented,
        Json.dropWhile_append_stop (forall_mem_pad hindent depth)]
      rw [hopening, List.cons_append]
      exact .cons hd
    have hne : (k.opening.toList ++ rest.toList).isEmpty = false := by
      rw [hopening]
      rfl
    rw [hpad, Clause.read, hne, if_neg Bool.false_ne_true, Keyword.read?_append]
    exact hbody

/-! ## The lines that are written -/

lemma means_blank : Means "" .blank := ⟨by decide, rfl⟩

section

variable (hindent : ∀ c ∈ style.indent.toList, isIndent c = true)

include hindent

/-- A line that is the same in all files. -/
lemma means_fixed (depth : Nat) (k : Keyword) {c : Clause} (hbody : k.body [] = some c) :
    Means (style.line depth k.opening) c := by
  have h : Means (style.line depth (k.opening ++ "")) c :=
    means_line hindent depth k (by decide) hbody
  rwa [String.append_empty] at h

/-- A comment around a guarded text, with a label in front of it that holds no star. -/
lemma means_comment (depth : Nat) {label : String} (hlabel : Unbroken label)
    (hstar : '*' ∉ label.toList) (s : String) :
    Means (style.line depth (docLine (label ++ docComment s))) .comment := by
  have hend : (" */" : String).toList = ' ' :: '*' :: '/' :: [] := rfl
  have hbody : Keyword.comment.body (label ++ docComment s ++ " */").toList = some .comment := by
    rw [String.toList_append, String.toList_append, List.append_assoc, hend, Keyword.body,
      afterEnd_append hstar, afterEnd_docComment, if_pos rfl]
  have hline : Unbroken (label ++ docComment s ++ " */") := by
    simp only [unbroken_append, unbroken_docComment, hlabel, and_self, true_and]
    decide
  have h := means_line hindent depth .comment hline hbody
  rw [docLine, String.append_assoc]
  exact h

/-- The line that opens the class. -/
lemma means_opens {name : String} (h : Named name) :
    Means (style.line 0 ("export class " ++ name ++ " \x7b")) (.opens name) := by
  have hstop : Json.Stops isNameChar (" \x7b" : String).toList := .cons (c := ' ') rfl
  have hbody : Keyword.opens.body (name ++ " \x7b").toList = some (.opens name) := by
    simp only [Keyword.body, String.toList_append, name?_append h hstop, Option.bind_eq_bind,
      Option.bind_some, ended_self]
  have hline : Unbroken (name ++ " \x7b") :=
    unbroken_append.mpr ⟨h.unbroken, by decide⟩
  rw [String.append_assoc]
  exact means_line hindent 0 .opens hline hbody

/-- The line of the address pattern. -/
lemma means_pattern (text : String) :
    Means (style.line 1 ("static readonly URL_PATTERN = " ++ quote text ++ ";"))
      (.pattern text) := by
  have hbody : Keyword.pattern.body (quote text ++ ";").toList = some (.pattern text) := by
    simp only [Keyword.body, String.toList_append, literal?_append, Option.bind_eq_bind,
      Option.bind_some, ended_self]
  have hline : Unbroken (quote text ++ ";") :=
    unbroken_append.mpr ⟨unbroken_quote text, by decide⟩
  rw [String.append_assoc]
  exact means_line hindent 1 .pattern hline hbody

/-- The line that opens a getter. -/
lemma means_gets {name type line : String} (h : Named name) (h' : Named type)
    (hline : line = "get " ++ (name ++ ("(): " ++ (type ++ " \x7b")))) :
    Means (style.line 1 line) (.gets name type) := by
  have hstop : ∀ rest, Json.Stops isNameChar ("(): ".toList ++ rest) :=
    fun _ => .cons (c := '(') rfl
  have hstop' : Json.Stops isNameChar (" \x7b" : String).toList := .cons (c := ' ') rfl
  have hbody : Keyword.gets.body (name ++ ("(): " ++ (type ++ " \x7b"))).toList
      = some (.gets name type) := by
    simp only [Keyword.body, String.toList_append, name?_append h (hstop _),
      Json.expect?_append, name?_append h' hstop', Option.bind_eq_bind, Option.bind_some,
      ended_self]
  have hbroken : Unbroken (name ++ ("(): " ++ (type ++ " \x7b"))) := by
    simp only [unbroken_append, h.unbroken, h'.unbroken, true_and]
    decide
  rw [hline]
  exact means_line hindent 1 .gets hbroken hbody

/-- The line of a getter that says how the element is found. -/
lemma means_returns {method before : String} (h : Named method) (text : String)
    (hbefore : before = "return this.page." ++ (method ++ "(")) :
    Means (style.line 2 (before ++ quote text ++ ");")) (.returns method text) := by
  have hstop : ∀ rest, Json.Stops isNameChar ("(".toList ++ rest) :=
    fun _ => .cons (c := '(') rfl
  have hbody : Keyword.returns.body (method ++ ("(" ++ (quote text ++ ");"))).toList
      = some (.returns method text) := by
    simp only [Keyword.body, String.toList_append, name?_append h (hstop _),
      Json.expect?_append, literal?_append, Option.bind_eq_bind, Option.bind_some, ended_self]
  have hbroken : Unbroken (method ++ ("(" ++ (quote text ++ ");"))) := by
    simp only [unbroken_append, h.unbroken, unbroken_quote, true_and]
    decide
  rw [hbefore, String.append_assoc, String.append_assoc, String.append_assoc]
  exact means_line hindent 2 .returns hbroken hbody

/-- The line that waits for a condition. -/
lemma means_awaits (p : Page) (w : WaitCondition) (state : String) :
    Means (waitLine style p w state)
      (.awaits ⟨conditionLocator p w, state, w.timeout * 1000⟩) := by
  let rest : String := quote (conditionLocator p w) ++ (").waitFor(\x7b state: "
    ++ (quote state ++ (", timeout: " ++ (Json.Number.digits (w.timeout * 1000) ++ " \x7d);"))))
  have hstop : Json.Stops Char.isDigit (" \x7d);" : String).toList := .cons (c := ' ') rfl
  have hbody : Keyword.awaits.body rest.toList
      = some (.awaits ⟨conditionLocator p w, state, w.timeout * 1000⟩) := by
    simp only [rest, Keyword.body, String.toList_append, literal?_append, Json.expect?_append,
      natural?_append _ hstop, Option.bind_eq_bind, Option.bind_some, ended_self]
  have hline : Unbroken rest := by
    simp only [rest, unbroken_append, unbroken_quote, Json.unbroken_digits, true_and]
    decide
  have hwait : waitLine style p w state = style.line 2 ("await this.page.locator(" ++ rest) := by
    simp only [waitLine, rest, String.append_assoc]
  rw [hwait]
  exact means_line hindent 2 .awaits hline hbody

end

end lines

end Rehearsal.Source
