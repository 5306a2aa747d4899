import Mathlib
import Rehearsal.Source.Spec
import Rehearsal.Proofs.Json.Printer

/-!
# The lines of a test file

A test file is made of lines of twenty kinds.  This file says what they are and that they cannot
be taken for one another.

* `Mark`: the kind of a line, with the fixed text it begins with and the slots for the free texts
  behind it.  **No beginning is the beginning of another** (`Mark.eq_of_begins`), so the
  kind of a line is settled before any free text in it.
* `Line`: a kind with the texts in its slots.
* `Line.text_append_inj`: a file determines its first line and what follows it, hence **all its
  lines** (`eq_of_unlines_text`).
* `Follows`: what a passage of lines comes to for a reader that takes them one by one.

A quoted slot delimits itself.  The text of a comment and an expected value do not, and end only
where the line does, so these two must hold no line feed: that is what `Fits` asks.
-/

namespace Rehearsal.Source

open Text

/-! ## Kinds -/

/-- The kinds of lines. -/
inductive Mark where
  | testImport
  | helperImport
  | blank
  | suite
  | case
  | before
  | after
  | test
  | skip
  | comment
  | click
  | type
  | select
  | hover
  | wait
  | assert
  | expectation
  | blockEnd
  | caseEnd
  | suiteEnd
deriving DecidableEq

/-- A place for a free text, quoted or as it is, and the fixed text behind it. -/
structure Slot where
  quoted : Bool
  behind : String

namespace Mark

/-- How deep a line stands. -/
def depth : Mark → Nat
  | testImport | helperImport | blank | suite | suiteEnd => 0
  | case | caseEnd => 1
  | before | after | test | skip | blockEnd => 2
  | _ => 3

/-- What a line says first, up to the first free text in it. -/
def opening : Mark → String
  | testImport => "import \x7b test, expect \x7d from '@playwright/test';"
  | helperImport => "import \x7b assertExpected \x7d from './helpers/assertions';"
  | blank => ""
  | suite => "test.describe("
  | case => "test.describe("
  | before => "test.beforeEach(async (\x7b page \x7d) => \x7b"
  | after => "test.afterEach(async (\x7b page \x7d) => \x7b"
  | test => "test("
  | skip => "test.skip("
  | comment => "// "
  | click => "await page.click("
  | type => "await page.fill("
  | select => "await page.selectOption("
  | hover => "await page.hover("
  | wait => "await page.waitForSelector("
  | assert => "expect(await page.isVisible("
  | expectation => "await assertExpected(page, "
  | blockEnd => "\x7d);"
  | caseEnd => "\x7d);"
  | suiteEnd => "\x7d);"

/-- How a line begins in the standard style. -/
def start (m : Mark) : String := Style.standard.line m.depth m.opening

lemma start_helperImport : helperImport.start
    = "import \x7b assertExpected \x7d from '" ++ assertionsImport ++ "';" := by
  decide +kernel

/-- The free texts of a line. -/
def slots : Mark → List Slot
  | suite | case => [⟨true, ", () => \x7b"⟩]
  | test | skip => [⟨true, ", async (\x7b page \x7d) => \x7b"⟩]
  | comment => [⟨false, ""⟩]
  | click | hover | wait => [⟨true, ");"⟩]
  | type | select => [⟨true, ", "⟩, ⟨true, ");"⟩]
  | assert => [⟨true, ")).toBeTruthy();"⟩]
  | expectation => [⟨true, ", "⟩, ⟨true, ", "⟩, ⟨false, ");"⟩]
  | _ => []

/-- What is the same in all lines of a kind: without free texts, the line and its line feed. -/
def lead (m : Mark) : List Char := m.start.toList ++ if m.slots.isEmpty then ['\n'] else []

/-- Every kind. -/
def all : List Mark :=
  [testImport, helperImport, blank, suite, case, before, after, test, skip, comment, click, type,
    select, hover, wait, assert, expectation, blockEnd, caseEnd, suiteEnd]

lemma mem_all (m : Mark) : m ∈ all := by
  cases m <;> decide

/-- **No beginning is the beginning of another.** -/
lemma eq_of_begins (a b : Mark) (h : a.lead <+: b.lead) : a = b := by
  have hall : ∀ a ∈ all, ∀ b ∈ all, a.lead <+: b.lead → a = b := by
    decide +kernel
  exact hall a a.mem_all b b.mem_all h

/-- What begins in two ways begins in one. -/
lemma lead_append_inj {a b : Mark} {r s : List Char} (h : a.lead ++ r = b.lead ++ s) :
    a = b ∧ r = s := by
  have ha : a.lead <+: b.lead ++ s := ⟨r, h⟩
  have hab : a = b := by
    rcases List.prefix_or_prefix_of_prefix ha (List.prefix_append b.lead s) with hp | hp
    · exact eq_of_begins a b hp
    · exact (eq_of_begins b a hp).symm
  subst hab
  exact ⟨rfl, List.append_cancel_left h⟩

end Mark

/-! ## Free texts -/

/-- The texts in their slots. -/
def fill : List Slot → List String → String
  | slot :: slots, t :: ts =>
      (if slot.quoted then quote t else t) ++ (slot.behind ++ fill slots ts)
  | _, _ => ""

/-- One text for each slot; one that is not quoted stands last and stays on its line. -/
inductive Fits : List Slot → List String → Prop where
  | none : Fits [] []
  | quoted {behind : String} {slots : List Slot} {t : String} {ts : List String}
      (more : Fits slots ts) : Fits (⟨true, behind⟩ :: slots) (t :: ts)
  | plain {behind t : String} (ht : OneLine (t ++ behind)) : Fits [⟨false, behind⟩] [t]

/-- The slots are read one after the other: each quoted text ends itself, a plain one ends with
the line. -/
lemma fill_append_inj {slots : List Slot} {ts us : List String} {r s : List Char}
    (hts : Fits slots ts) (hus : Fits slots us)
    (h : (fill slots ts).toList ++ '\n' :: r = (fill slots us).toList ++ '\n' :: s) :
    ts = us ∧ r = s := by
  induction hts generalizing us with
  | none =>
      cases hus
      exact ⟨rfl, by simpa using h⟩
  | quoted more ih =>
      cases hus with
      | quoted more' =>
          simp only [fill, if_true, quote, String.toList_append, String.toList_ofList,
            List.append_assoc] at h
          obtain ⟨ht, h⟩ := quoteChars_append_inj h
          obtain ⟨rfl, hrs⟩ := ih more' (List.append_cancel_left h)
          exact ⟨by rw [String.toList_inj.mp ht], hrs⟩
  | plain ht =>
      cases hus with
      | plain hu =>
          simp only [fill, Bool.false_eq_true, if_false, String.append_empty] at h
          obtain ⟨htu, hrs⟩ := append_cons_inj ht hu h
          rw [String.toList_append, String.toList_append] at htu
          rw [String.toList_inj.mp (List.append_cancel_right htu)]
          exact ⟨rfl, hrs⟩

/-! ## Lines -/

/-- A kind of line with the texts in its slots. -/
structure Line where
  mark : Mark
  texts : List String

namespace Line

/-- The line as it stands in a file in the standard style. -/
def text (l : Line) : String := l.mark.start ++ fill l.mark.slots l.texts

/-- The texts fit the slots. -/
def Sound (l : Line) : Prop := Fits l.mark.slots l.texts

/-- What follows the lead of a line, when `r` follows the line. -/
def tail (l : Line) (r : List Char) : List Char :=
  if l.mark.slots.isEmpty then r else (fill l.mark.slots l.texts).toList ++ '\n' :: r

lemma text_append (l : Line) (r : List Char) :
    l.text.toList ++ '\n' :: r = l.mark.lead ++ l.tail r := by
  rw [text, Mark.lead, tail]
  split_ifs with h
  · rw [List.isEmpty_iff.mp h]
    simp [fill]
  · simp

/-- **A file determines its first line and what follows it.** -/
lemma text_append_inj {a b : Line} (ha : a.Sound) (hb : b.Sound) {r s : List Char}
    (h : a.text.toList ++ '\n' :: r = b.text.toList ++ '\n' :: s) : a = b ∧ r = s := by
  rw [text_append, text_append] at h
  obtain ⟨hm, h⟩ := Mark.lead_append_inj h
  obtain ⟨m, ts⟩ := a
  obtain ⟨n, us⟩ := b
  simp only at hm
  subst hm
  have hfill : (fill m.slots ts).toList ++ '\n' :: r = (fill m.slots us).toList ++ '\n' :: s := by
    simp only [tail] at h
    split_ifs at h with he
    · simp [h, List.isEmpty_iff.mp he, fill]
    · exact h
  obtain ⟨rfl, hrs⟩ := fill_append_inj ha hb hfill
  exact ⟨rfl, hrs⟩

end Line

/-- **A file determines its lines.** -/
lemma eq_of_unlines_text : ∀ {as bs : List Line}, (∀ l ∈ as, l.Sound) → (∀ l ∈ bs, l.Sound) →
    unlines (as.map Line.text) = unlines (bs.map Line.text) → as = bs
  | [], [], _, _, _ => rfl
  | [], b :: bs, _, _, h => by
      have hlen := congrArg (fun s => s.toList.length) h
      simp [unlines] at hlen
  | a :: as, [], _, _, h => by
      have hlen := congrArg (fun s => s.toList.length) h
      simp [unlines] at hlen
  | a :: as, b :: bs, ha, hb, h => by
      have hchars := congrArg String.toList h
      simp only [List.map_cons, unlines, String.toList_append, List.append_assoc] at hchars
      obtain ⟨rfl, hrest⟩ := Line.text_append_inj (ha a (by simp)) (hb b (by simp)) hchars
      rw [eq_of_unlines_text (fun l hl => ha l (by simp [hl])) (fun l hl => hb l (by simp [hl]))
        (String.toList_inj.mp hrest)]

/-! ## Passages -/

/-- Taking the lines of a passage one after the other comes to a function of what was there
before. -/
def Follows {σ : Type} (take : σ → Line → σ) (passage : List String) (f : σ → σ) : Prop :=
  ∃ ls : List Line, passage = ls.map Line.text ∧ (∀ l ∈ ls, l.Sound) ∧
    ∀ s, ls.foldl take s = f s

namespace Follows

variable {σ : Type} {take : σ → Line → σ}

lemma nil : Follows take [] id := ⟨[], rfl, by simp, fun _ => rfl⟩

/-- A single line. -/
lemma line {s : String} (l : Line) (hl : l.Sound) (hs : s = l.text) :
    Follows take [s] (take · l) :=
  ⟨[l], by simp [hs], by simpa using hl, fun _ => rfl⟩

/-- One passage and then another. -/
lemma append {a b : List String} {f g : σ → σ} (ha : Follows take a f) (hb : Follows take b g) :
    Follows take (a ++ b) (g ∘ f) := by
  obtain ⟨ks, rfl, hks, hf⟩ := ha
  obtain ⟨ls, rfl, hls, hg⟩ := hb
  refine ⟨ks ++ ls, by simp, ?_, fun s => by simp [hf, hg]⟩
  intro l hl
  rcases List.mem_append.mp hl with hl | hl
  · exact hks l hl
  · exact hls l hl

lemma congr {a : List String} {f g : σ → σ} (ha : Follows take a f) (h : ∀ s, f s = g s) :
    Follows take a g := by
  obtain rfl : f = g := funext h
  exact ha

/-- A fixed line. -/
lemma fixed (m : Mark) (hm : m.slots = []) : Follows take [m.start] (take · ⟨m, []⟩) :=
  line ⟨m, []⟩ (by simp only [Line.Sound, hm]; exact Fits.none)
    (by simp only [Line.text, hm, fill, String.append_empty])

/-- A line with one literal. -/
lemma titled (m : Mark) (behind title : String) (hm : m.slots = [⟨true, behind⟩]) :
    Follows take [Style.standard.line m.depth (m.opening ++ quote title ++ behind)]
      (take · ⟨m, [title]⟩) :=
  line ⟨m, [title]⟩ (by simp only [Line.Sound, hm]; exact Fits.quoted Fits.none)
    (by simp only [Line.text, Mark.start, hm, fill, Style.line, String.append_assoc,
      String.append_empty, if_true])

/-- The line of a comment. -/
lemma comment (d : String) : Follows take [Style.standard.line 3 (lineComment d)]
    (take · ⟨.comment, [singleLine d]⟩) := by
  refine line ⟨.comment, [singleLine d]⟩ (Fits.plain ?_) ?_
  · simpa only [String.append_empty] using oneLine_singleLine d
  · simp only [Line.text, Mark.start, Mark.depth, Mark.opening, Mark.slots, fill, Style.line,
      lineComment, String.append_assoc, String.append_empty, Bool.false_eq_true, if_false]

/-- The line of an expectation. -/
lemma expectation (e : Expectation) : Follows take [Style.standard.line 3 (expectationLine e)]
    (take · ⟨.expectation, [e.selector, e.comparison, e.expected.compact]⟩) := by
  have hvalue : OneLine (e.expected.compact ++ ");") := by
    rw [oneLine_append]
    exact ⟨Json.oneLine_compact _, by decide⟩
  refine line _ (Fits.quoted (Fits.quoted (Fits.plain hvalue))) ?_
  unfold expectationLine
  simp only [Line.text, Mark.start, Mark.depth, Mark.opening, Mark.slots, fill, Style.line,
    String.append_assoc, String.append_empty, if_true, Bool.false_eq_true, if_false]

/-- The line that opens a test. -/
lemma test (enabled : Bool) (name : String) :
    Follows take [Style.standard.line 2 ((if enabled then "test" else "test.skip") ++ "("
        ++ quote name ++ ", async (\x7b page \x7d) => \x7b")]
      (take · ⟨if enabled then .test else .skip, [name]⟩) := by
  have htest : "test" ++ "(" = "test(" := by decide
  have hskip : "test.skip" ++ "(" = "test.skip(" := by decide
  cases enabled with
  | true =>
      rw [if_pos rfl, htest]
      exact titled .test ", async (\x7b page \x7d) => \x7b" name rfl
  | false =>
      rw [if_neg Bool.false_ne_true, hskip]
      exact titled .skip ", async (\x7b page \x7d) => \x7b" name rfl

end Follows

end Rehearsal.Source
