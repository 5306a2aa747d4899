import Mathlib
import Rehearsal.Proofs.Source.Declarations
import Rehearsal.Proofs.Step
import Rehearsal.Proofs.Text.Comment

/-!
# Comments in generated files

A description is free text, and it stands in a comment.  It neither ends the comment before its
time nor spills over to another line.

* `Row`: a line, with how deep it stands; `Code`: what stands on a line that is no comment.
* `Shows`: these lines hold **these comments, in order, and no others**.  The lemmas follow the
  renderers, one for each of their functions.
* `comments_contained`: what a text can do to a comment, and to the file that the comment stands in.
-/

namespace Rehearsal

/-! ## Descriptions -/

/-- What a case says of itself and of its steps, in the order in which it is written. -/
def Case.descriptions (c : Case) : List String :=
  (c.beforeEach.getD []).filterMap StoredStep.description
    ++ (c.afterEach.getD []).filterMap StoredStep.description
    ++ c.description.toList ++ c.steps.filterMap StoredStep.description

/-- What the cases of a suite say. -/
def Suite.descriptions (s : Suite) : List String := s.cases.flatMap Case.descriptions

namespace Source

open Text

/-! ## Rows -/

/-- A line: how deep it stands, and what stands on it. -/
structure Row where
  depth : Nat
  text : String

namespace Row

/-- The line as it is written. -/
def line (style : Style) (r : Row) : String := style.line r.depth r.text

/-- Whether a line begins with a mark, its indentation apart. -/
def begins (mark : String) (r : Row) : Bool := mark.toList.isPrefixOf r.text.toList

end Row

/-- A text that begins where its indentation ends. -/
def Flush (text : String) : Prop := unindented text.toList = text.toList

/-- What stands on a line that is neither blank nor a comment. -/
def Code (text : String) : Prop :=
  OneLine text ∧ text.toList.head?.any (fun c => c != '/' && !isIndent c) = true

instance (text : String) : Decidable (Code text) := inferInstanceAs (Decidable (_ ∧ _))

namespace Code

variable {text : String}

lemma exists_cons (h : Code text) :
    ∃ c cs, text.toList = c :: cs ∧ c ≠ '/' ∧ isIndent c = false := by
  obtain ⟨-, hhead⟩ := h
  cases hchars : text.toList with
  | nil =>
      rw [hchars] at hhead
      cases hhead
  | cons c cs =>
      rw [hchars] at hhead
      simpa using hhead

/-- The beginning decides. -/
lemma append (h : Code text) {rest : String} (hrest : OneLine rest) : Code (text ++ rest) := by
  refine ⟨oneLine_append.mpr ⟨h.1, hrest⟩, ?_⟩
  obtain ⟨c, cs, hchars, -⟩ := h.exists_cons
  have hhead := h.2
  rw [hchars] at hhead
  rw [String.toList_append, hchars]
  exact hhead

lemma flush (h : Code text) : Flush text := by
  obtain ⟨c, cs, hchars, -, hc⟩ := h.exists_cons
  rw [Flush, unindented, hchars, List.dropWhile_cons_of_neg (by simp [hc])]

lemma not_begins (h : Code text) {mark : String} (hmark : mark.toList.head? = some '/')
    (depth : Nat) : Row.begins mark ⟨depth, text⟩ = false := by
  obtain ⟨c, cs, hchars, hc, -⟩ := h.exists_cons
  obtain ⟨ms, hms⟩ := List.head?_eq_some_iff.mp hmark
  rw [Row.begins, hchars, hms, List.isPrefixOf_cons_cons]
  simp [Ne.symm hc]

end Code

/-- Lines with these comments, in order, and no others. -/
def Shows (style : Style) (mark : String) (ls : List String) (remarks : List Row) : Prop :=
  ∃ rows : List Row, ls = rows.map (Row.line style) ∧ (∀ r ∈ rows, OneLine r.text ∧ Flush r.text)
    ∧ rows.filter (Row.begins mark) = remarks

namespace Shows

variable {style : Style} {mark : String} {ls ls' : List String} {remarks remarks' : List Row}

lemma nil : Shows style mark [] [] := ⟨[], rfl, fun _ hr => absurd hr List.not_mem_nil, rfl⟩

lemma append (h : Shows style mark ls remarks) (h' : Shows style mark ls' remarks') :
    Shows style mark (ls ++ ls') (remarks ++ remarks') := by
  obtain ⟨rows, rfl, hrows, rfl⟩ := h
  obtain ⟨rows', rfl, hrows', rfl⟩ := h'
  refine ⟨rows ++ rows', List.map_append.symm, ?_, List.filter_append ..⟩
  exact List.forall_mem_append.mpr ⟨hrows, hrows'⟩

/-- Lines without comments add none. -/
lemma append_code (h : Shows style mark ls remarks) (h' : Shows style mark ls' []) :
    Shows style mark (ls ++ ls') remarks :=
  List.append_nil remarks ▸ h.append h'

lemma cons {l : String} (h : Shows style mark [l] remarks) (h' : Shows style mark ls remarks') :
    Shows style mark (l :: ls) (remarks ++ remarks') :=
  h.append h'

section marked

variable (hmark : mark.toList.head? = some '/')

include hmark

/-- A comment. -/
lemma remark (depth : Nat) {text : String} (rest : String) (htext : text = mark ++ rest)
    (hline : OneLine text) : Shows style mark [style.line depth text] [⟨depth, text⟩] := by
  obtain ⟨ms, hms⟩ := List.head?_eq_some_iff.mp hmark
  have hchars : text.toList = mark.toList ++ rest.toList := by
    rw [htext, String.toList_append]
  have hflush : Flush text := by
    rw [Flush, unindented, hchars, hms, List.cons_append]
    exact List.dropWhile_cons_of_neg (by decide)
  refine ⟨[⟨depth, text⟩], rfl, List.forall_mem_singleton.mpr ⟨hline, hflush⟩, ?_⟩
  refine List.filter_cons_of_pos ?_
  rw [Row.begins, List.isPrefixOf_iff_prefix, hchars]
  exact List.prefix_append _ _

/-- A line of code. -/
lemma code (depth : Nat) {text : String} (h : Code text) :
    Shows style mark [style.line depth text] [] := by
  refine ⟨[⟨depth, text⟩], rfl, List.forall_mem_singleton.mpr ⟨h.1, h.flush⟩, ?_⟩
  rw [List.filter_cons_of_neg (by simp [h.not_begins hmark]), List.filter_nil]

/-- A line of code that is not indented. -/
lemma outer {text : String} (h : Code text) : Shows style mark [text] [] := by
  have hline : style.line 0 text = text := String.empty_append
  exact hline ▸ code hmark 0 h

lemma blank : Shows style mark [""] [] := by
  obtain ⟨ms, hms⟩ := List.head?_eq_some_iff.mp hmark
  refine ⟨[⟨0, ""⟩], rfl, List.forall_mem_singleton.mpr ⟨by decide, rfl⟩, ?_⟩
  refine List.filter_cons_of_neg ?_
  rw [Row.begins, hms]
  exact Bool.false_ne_true

/-- **With spaces and tabs for indentation, the lines of a file that begin with the mark are its
comments.** -/
lemma lines (hindent : ∀ c ∈ style.indent.toList, isIndent c = true)
    (h : Shows style mark ls remarks) :
    ((linesOf (unlines ls)).map unindented).filter (mark.toList.isPrefixOf ·)
      = remarks.map (·.text.toList) := by
  obtain ⟨rows, rfl, hrows, rfl⟩ := h
  have hone : ∀ l ∈ rows.map (Row.line style), OneLine l := by
    refine List.forall_mem_map.mpr fun r hr => oneLine_append.mpr ⟨?_, (hrows r hr).1⟩
    exact (unbroken_pad hindent r.depth).oneLine
  have htexts : (rows.map (Row.line style)).map (fun l => unindented l.toList)
      = rows.map (·.text.toList) := by
    rw [List.map_map]
    refine List.map_congr_left fun r hr => ?_
    rw [Function.comp_apply, Row.line, Style.line, String.toList_append, unindented,
      List.dropWhile_append_of_pos (forall_mem_pad hindent r.depth)]
    exact (hrows r hr).2
  have hlast : [unindented []].filter (mark.toList.isPrefixOf ·) = [] := by
    obtain ⟨ms, hms⟩ := List.head?_eq_some_iff.mp hmark
    rw [hms]
    rfl
  rw [linesOf_unlines hone, List.map_append, List.filter_append, List.map_singleton, hlast,
    List.append_nil, List.map_map, Function.comp_def, htexts, List.filter_map]
  rfl

end marked

end Shows

/-! ## Class files -/

/-- What the class for a page has in comments: the description, and each selector. -/
def pageRemarks (p : Page) : List Row :=
  (p.description.toList.map fun d => ⟨0, docLine (docComment d)⟩)
    ++ p.selectors.entries.map fun e =>
      ⟨1, docLine (e.2.kind.label ++ ": " ++ docComment e.2.value)⟩

namespace Shows

variable {style : Style}

/-- A documentation comment around a text. -/
lemma comment (depth : Nat) {text : String} (h : OneLine text) :
    Shows style "/**" [style.line depth (docLine text)] [⟨depth, docLine text⟩] := by
  refine remark rfl depth (" " ++ text ++ " */") ?_ ?_
  · rw [Source.docLine, ← String.append_assoc, ← String.append_assoc]
    rfl
  · exact oneLine_append.mpr ⟨oneLine_append.mpr ⟨by decide, h⟩, by decide⟩

lemma accessorLines {e : String × Selector} (h : accessorName e.1 ≠ "") :
    Shows style "/**" (accessorLines style (accessorName e.1) e.2)
      [⟨1, Source.docLine (e.2.kind.label ++ ": " ++ docComment e.2.value)⟩] := by
  obtain ⟨key, s⟩ := e
  have hname : OneLine (accessorName key) :=
    (named_of_isIdentifier (isIdentifier_accessorName h)).unbroken.oneLine
  have hlabel : OneLine (s.kind.label ++ ": ") := by
    cases s.kind <;> decide
  have htext : OneLine (s.kind.label ++ ": " ++ docComment s.value) :=
    oneLine_append.mpr ⟨hlabel, (unbroken_docComment s.value).oneLine⟩
  have hgets : Code ("get " ++ accessorName key ++ "(): Locator \x7b") :=
    (Code.append (by decide) hname).append (by decide)
  have hreturns : Code ("return this.page.locator(" ++ quote s.locator ++ ");") :=
    (Code.append (by decide) (oneLine_quote _)).append (by decide)
  exact (blank rfl).cons <| (comment 1 htext).cons <| (code rfl 1 hgets).cons <|
    (code rfl 2 hreturns).cons (code rfl 1 (by decide))

lemma accessors {es : List (String × Selector)} (h : ∀ e ∈ es, accessorName e.1 ≠ "") :
    Shows style "/**" (es.flatMap fun e => Source.accessorLines style (accessorName e.1) e.2)
      (es.map fun e => ⟨1, Source.docLine (e.2.kind.label ++ ": " ++ docComment e.2.value)⟩) := by
  induction es with
  | nil => exact nil
  | cons e es ih =>
      obtain ⟨he, hes⟩ := List.forall_mem_cons.mp h
      exact (accessorLines he).append (ih hes)

lemma frameLines (frame : String) : Shows style "/**" (frameLines style frame) [] := by
  have hreturns : Code ("return this.page.frameLocator(" ++ quote frame ++ ");") :=
    (Code.append (by decide) (oneLine_quote _)).append (by decide)
  exact (blank rfl).cons <| (code rfl 1 (by decide)).cons <| (code rfl 2 hreturns).cons
    (code rfl 1 (by decide))

lemma waitLine (p : Page) (w : WaitCondition) (state : String) :
    Shows style "/**" [waitLine style p w state] [] := by
  have hcode : Code "await this.page.locator(" := by
    decide
  exact code rfl 2 <| (((((hcode.append (oneLine_quote _)).append (by decide)).append
    (oneLine_quote _)).append (by decide)).append (Json.oneLine_digits _)).append (by decide)

lemma waitLines {p : Page} {ws : List WaitCondition} {ls : List String}
    (h : waitLines style p ws = .ok ls) : Shows style "/**" ls [] := by
  induction ws generalizing ls with
  | nil =>
      cases h
      exact nil
  | cons w ws ih =>
      obtain ⟨state, -, h⟩ := bind_eq_ok_iff.mp h
      obtain ⟨more, hmore, h⟩ := bind_eq_ok_iff.mp h
      cases h
      exact (waitLine p w state).cons (ih hmore)

lemma readyLines {p : Page} {ls : List String} (h : readyLines style p = .ok ls) :
    Shows style "/**" ls [] := by
  rw [Source.readyLines] at h
  split_ifs at h
  · cases h
    exact nil
  · obtain ⟨more, hmore, h⟩ := bind_eq_ok_iff.mp h
    cases h
    exact (blank rfl).cons <| (code rfl 1 (by decide)).cons <| (waitLines hmore).append
      (code rfl 1 (by decide))

lemma classHead {p : Page} (hne : className p.name ≠ "") :
    Shows style "/**" (classHead style p (className p.name))
      (p.description.toList.map fun d => ⟨0, Source.docLine (docComment d)⟩) := by
  have hopens : Code ("export class " ++ className p.name ++ " \x7b") :=
    (Code.append (by decide) (named_className hne).unbroken.oneLine).append (by decide)
  have hpattern : Code ("static readonly URL_PATTERN = " ++ quote p.urlPattern ++ ";") :=
    (Code.append (by decide) (oneLine_quote _)).append (by decide)
  have hrest : Shows style "/**"
      ["export class " ++ className p.name ++ " \x7b",
        style.line 1 ("static readonly URL_PATTERN = " ++ quote p.urlPattern ++ ";"), "",
        style.line 1 "constructor(private readonly page: Page) \x7b\x7d"] [] :=
    (outer rfl hopens).cons <| (code rfl 1 hpattern).cons <| (blank rfl).cons
      (code rfl 1 (by decide))
  rw [Source.classHead, List.append_assoc]
  refine (outer rfl (by decide)).cons <| (blank rfl).cons ?_
  cases p.description with
  | none => exact hrest
  | some d =>
      have hzero : style.line 0 (Source.docLine (docComment d)) = Source.docLine (docComment d) :=
        String.empty_append
      have hcomment : Shows style "/**" [style.line 0 (Source.docLine (docComment d))]
          [⟨0, Source.docLine (docComment d)⟩] := comment 0 (unbroken_docComment d).oneLine
      rw [hzero] at hcomment
      exact hcomment.cons hrest

lemma pageObjectLines [Libraries] {p : Page} {ls : List String}
    (h : pageObjectLines style p = .ok ls) :
    Shows style "/**" ls (pageRemarks p) := by
  obtain ⟨hne, hnamed, ready, hready, rfl⟩ := parts_of_pageObjectLines h
  refine ((((classHead hne).append (accessors hnamed)).append_code ?_).append_code
    (readyLines hready)).append_code (outer rfl (by decide))
  cases p.iframeSelector with
  | none => exact nil
  | some f => exact frameLines f

end Shows

/-! ## Test files -/

/-- The comment that stands for a description. -/
def remarkOf (description : String) : Row := ⟨3, lineComment description⟩

/-- A page has a say in the selector of a step only. -/
lemma description_of_resolve {pages : Pages} {s t : Step} (h : resolve pages s = .ok t) :
    t.description = s.description := by
  rw [resolve] at h
  split at h
  · cases h
    rfl
  · split at h
    · cases h
    · split at h <;> cases h <;> rfl

lemma descriptions_of_checkAll {ss : List StoredStep} {ts : List Step}
    (h : StoredStep.checkAll ss = .ok ts) :
    ts.filterMap Step.description = ss.filterMap StoredStep.description := by
  have hkept : ts.map Step.description = ss.map StoredStep.description := by
    rw [← List.forall₂_eq_eq_eq, List.forall₂_map_left_iff, List.forall₂_map_right_iff]
    exact ((StoredStep.checkAll_eq_ok_iff.mp h).imp
      fun _ _ hst => (StoredStep.keeps_of_check hst).description).flip
  calc ts.filterMap Step.description
      = (ts.map Step.description).filterMap id := by rw [List.filterMap_map, Function.id_comp]
    _ = (ss.map StoredStep.description).filterMap id := by rw [hkept]
    _ = ss.filterMap StoredStep.description := by rw [List.filterMap_map, Function.id_comp]

lemma code_compile (s : Step) : Code s.compile := by
  obtain ⟨action, selector, description, page⟩ := s
  cases action
  case click | hover | wait | assert =>
    exact (Code.append (by decide) (oneLine_quote _)).append (by decide)
  case type v | select v =>
    exact (((Code.append (by decide) (oneLine_quote _)).append (by decide)).append
      (oneLine_quote _)).append (by decide)

namespace Shows

variable {style : Style} {pages : Pages}

lemma commentLines (description : Option String) :
    Shows style "//" (commentLines style 3 description) (description.toList.map remarkOf) := by
  cases description with
  | none => exact nil
  | some d =>
      have hline : OneLine (lineComment d) :=
        oneLine_append.mpr ⟨by decide, oneLine_singleLine d⟩
      refine remark rfl 3 (" " ++ singleLine d) ?_ hline
      rw [lineComment, ← String.append_assoc]
      rfl

lemma checkedStepLines {ts : List Step} {ls : List String}
    (h : checkedStepLines style pages ts = .ok ls) :
    Shows style "//" ls ((ts.filterMap Step.description).map remarkOf) := by
  induction ts generalizing ls with
  | nil =>
      cases h
      exact nil
  | cons t ts ih =>
      obtain ⟨u, hu, h⟩ := bind_eq_ok_iff.mp h
      obtain ⟨more, hmore, h⟩ := bind_eq_ok_iff.mp h
      cases h
      rw [List.filterMap_eq_flatMap_toList, List.flatMap_cons, List.map_append,
        ← List.filterMap_eq_flatMap_toList, ← description_of_resolve hu]
      exact (commentLines u.description).append ((code rfl 3 (code_compile u)).cons (ih hmore))

lemma stepLines {ss : List StoredStep} {ls : List String}
    (h : stepLines style pages ss = .ok ls) :
    Shows style "//" ls ((ss.filterMap StoredStep.description).map remarkOf) := by
  obtain ⟨ts, hts, h⟩ := bind_eq_ok_iff.mp h
  exact descriptions_of_checkAll hts ▸ checkedStepLines h

lemma hookLines {hook : String} (hhook : OneLine hook) {steps : Option (List StoredStep)}
    {ls : List String} (h : hookLines style pages hook steps = .ok ls) :
    Shows style "//" ls (((steps.getD []).filterMap StoredStep.description).map remarkOf) := by
  match steps, h with
  | none, h =>
      cases h
      exact nil
  | some [], h =>
      cases h
      exact nil
  | some (s :: rest), h =>
      obtain ⟨lines, hlines, h⟩ := bind_eq_ok_iff.mp h
      cases h
      have hopen : Code ("test." ++ hook ++ "(async (\x7b page \x7d) => \x7b") :=
        (Code.append (by decide) hhook).append (by decide)
      have hclose : Shows style "//" [style.line 2 "\x7d);", ""] [] :=
        (code rfl 2 (by decide)).cons (blank rfl)
      exact ((code rfl 2 hopen).cons (stepLines hlines)).append_code hclose

lemma expectationLines (es : List Expectation) :
    Shows style "//" (es.map fun e => style.line 3 (expectationLine e)) [] := by
  induction es with
  | nil => exact nil
  | cons e es ih =>
      have hcode : Code "await assertExpected(page, " := by
        decide
      exact (code rfl 3 <| (((((hcode.append (oneLine_quote _)).append (by decide)).append
        (oneLine_quote _)).append (by decide)).append (Json.oneLine_compact _)).append
        (by decide)).cons ih

/-- A case is one block, with one test in it. -/
lemma caseLines {c : Case} {ls : List String} (h : caseLines style pages c = .ok ls) :
    Shows style "//" ls (c.descriptions.map remarkOf) := by
  obtain ⟨before, hbefore, h⟩ := bind_eq_ok_iff.mp h
  obtain ⟨after, hafter, h⟩ := bind_eq_ok_iff.mp h
  obtain ⟨steps, hsteps, h⟩ := bind_eq_ok_iff.mp h
  cases h
  have hopen : Code ("test.describe(" ++ quote c.name ++ ", () => \x7b") :=
    (Code.append (by decide) (oneLine_quote _)).append (by decide)
  have htest : Code ((if c.enabled then "test" else "test.skip") ++ "(" ++ quote c.name
      ++ ", async (\x7b page \x7d) => \x7b") := by
    refine .append (.append ?_ (oneLine_quote _)) (by decide)
    cases c.enabled <;> decide
  have hclose : Shows style "//" [style.line 2 "\x7d);", style.line 1 "\x7d);"] [] :=
    (code rfl 2 (by decide)).cons (code rfl 1 (by decide))
  rw [Case.descriptions, List.map_append, List.map_append, List.map_append]
  exact ((((((code rfl 1 hopen).append (hookLines (by decide) hbefore)).append
    (hookLines (by decide) hafter)).append_code (code rfl 2 htest)).append
    (commentLines c.description)).append (stepLines hsteps)).append_code
    (expectationLines (c.expectations.getD [])) |>.append_code hclose

lemma casesLines {suite : Suite} : ∀ {cs : List Case} {ls : List String},
    casesLines style pages suite cs = .ok ls →
      Shows style "//" ls ((cs.flatMap Case.descriptions).map remarkOf)
  | [], ls, h => by
      cases h
      exact nil
  | [c], ls, h => by
      rw [List.flatMap_singleton]
      exact caseLines (mapError_eq_ok_iff.mp h)
  | c :: d :: cs, ls, h => by
      obtain ⟨first, hfirst, h⟩ := bind_eq_ok_iff.mp h
      obtain ⟨more, hmore, h⟩ := bind_eq_ok_iff.mp h
      cases h
      rw [List.flatMap_cons, List.map_append]
      exact (caseLines (mapError_eq_ok_iff.mp hfirst)).append
        ((blank rfl).cons (casesLines hmore))

lemma testFileLines {suite : Suite} {ls : List String}
    (h : testFileLines style pages suite = .ok ls) :
    Shows style "//" ls (suite.descriptions.map remarkOf) := by
  obtain ⟨cases, hcases, h⟩ := bind_eq_ok_iff.mp h
  cases h
  have himports : Shows style "//" (["import \x7b test, expect \x7d from '@playwright/test';"]
      ++ (if needsAssertions suite then
            ["import \x7b assertExpected \x7d from '" ++ assertionsImport ++ "';"]
          else [])) [] := by
    refine (outer rfl (by decide)).cons ?_
    split_ifs
    · exact outer rfl (by decide)
    · exact nil
  have hopen : Code ("test.describe(" ++ quote suite.name ++ ", () => \x7b") :=
    (Code.append (by decide) (oneLine_quote _)).append (by decide)
  have hclose : Shows style "//" ["\x7d);"] [] := outer rfl (by decide)
  exact ((himports.append ((blank rfl).cons (outer rfl hopen))).append
    (casesLines hcases)).append_code hclose

end Shows

/-! ## Nothing gets out -/

lemma afterEnd_docLine {label : String} (hlabel : '*' ∉ label.toList) (s : String) :
    afterEnd (docLine (label ++ docComment s)).toList = some [] := by
  have hend : (" */" : String).toList = ' ' :: '*' :: '/' :: [] := rfl
  have hopening : ("/** " : String).toList = '/' :: '*' :: '*' :: ' ' :: [] := rfl
  simp only [docLine, String.toList_append, List.append_assoc, hend, hopening, List.cons_append,
    List.nil_append]
  rw [afterEnd_cons (by decide), afterEnd_star (by simp), afterEnd_star (by simp),
    afterEnd_cons (by decide), afterEnd_append hlabel, afterEnd_docComment]

/-- The comments of a page end where they should. -/
lemma contained_of_mem {p : Page} {r : Row} (h : r ∈ pageRemarks p) :
    afterEnd r.text.toList = some [] ∧ Seamless r.text := by
  have hcomment : ∀ label s, '*' ∉ label.toList → Seamless label →
      afterEnd (docLine (label ++ docComment s)).toList = some []
        ∧ Seamless (docLine (label ++ docComment s)) := by
    intro label s hstar hlabel
    refine ⟨afterEnd_docLine hstar s, ?_⟩
    simp only [docLine, seamless_append, seamless_docComment, hlabel, and_true]
    decide
  rcases List.mem_append.mp h with h | h
  · obtain ⟨d, -, rfl⟩ := List.mem_map.mp h
    have hplain := hcomment "" d (by decide) (by decide)
    rwa [String.empty_append] at hplain
  · obtain ⟨e, -, rfl⟩ := List.mem_map.mp h
    refine hcomment _ _ ?_ ?_ <;> cases e.2.kind <;> decide

/-- Indentation neither ends a comment nor its line. -/
lemma contained_of_unindented {l : List Char} (hend : afterEnd (unindented l) = some [])
    (hline : ∀ c ∈ unindented l, isLineEnd c = false) :
    Closes l ∧ ∀ c ∈ l, isLineEnd c = false := by
  have hsplit : l.takeWhile isIndent ++ unindented l = l := List.takeWhile_append_dropWhile
  have hblank : ∀ c ∈ l.takeWhile isIndent, c ≠ '*' ∧ isLineEnd c = false := by
    intro c hc
    have hindent := List.mem_takeWhile_imp hc
    simp only [isIndent, Bool.or_eq_true, beq_iff_eq] at hindent
    rcases hindent with rfl | rfl <;> decide
  rw [← hsplit]
  constructor
  · refine closes_of_afterEnd ?_
    rw [afterEnd_append fun h => (hblank _ h).1 rfl, hend]
  · exact List.forall_mem_append.mpr ⟨fun c hc => (hblank c hc).2, hline⟩

/-- **No text gets out of a comment.**

* A text on one line ends no line, in none of the four ways in which lines of a script end; a
  guarded text holds no end mark either; and neither changes when it is treated once more.
* The documentation comments in the class for a page are its description and its selectors, and
  each of them ends with the first end mark of its line.
* The line comments in the file for a suite are the descriptions of its cases and steps, one line
  for each, whatever the indentation is. -/
theorem comments_contained [Libraries] :
    (∀ t, Seamless (singleLine t) ∧ singleLine (singleLine t) = singleLine t)
      ∧ (∀ t, Seamless (docComment t) ∧ ¬endMark <:+: (docComment t).toList
        ∧ docComment (docComment t) = docComment t)
      ∧ (∀ style p text, (∀ c ∈ style.indent.toList, c = ' ' ∨ c = '\t') →
        pageObject style p = .ok text →
          ((linesOf text).map unindented).filter ("/**".toList.isPrefixOf ·)
              = (pageRemarks p).map (·.text.toList)
            ∧ ∀ l ∈ linesOf text, "/**".toList <+: unindented l →
              Closes l ∧ ∀ c ∈ l, isLineEnd c = false)
      ∧ ∀ style pages s text, testFile style pages s = .ok text →
        (∃ rows : List Row, text = unlines (rows.map (Row.line style))
            ∧ (∀ r ∈ rows, OneLine r.text)
            ∧ rows.filter (Row.begins "//") = s.descriptions.map remarkOf)
          ∧ ((∀ c ∈ style.indent.toList, c = ' ' ∨ c = '\t') →
            ((linesOf text).map unindented).filter ("//".toList.isPrefixOf ·)
              = s.descriptions.map fun d => (lineComment d).toList) := by
  have hindent : ∀ style : Style, (∀ c ∈ style.indent.toList, c = ' ' ∨ c = '\t') →
      ∀ c ∈ style.indent.toList, isIndent c = true :=
    fun style h c hc => by simpa [isIndent] using h c hc
  refine ⟨fun t => ⟨seamless_singleLine t, singleLine_singleLine t⟩,
    fun t => ⟨seamless_docComment t, not_infix_docComment t, docComment_docComment t⟩, ?_, ?_⟩
  · intro style p text hstyle h
    obtain ⟨ls, hls, rfl⟩ := map_eq_ok_iff.mp h
    have hlines := (Shows.pageObjectLines hls).lines rfl (hindent style hstyle)
    refine ⟨hlines, fun l hl hopening => ?_⟩
    have hmem : unindented l ∈ (pageRemarks p).map (·.text.toList) := by
      rw [← hlines, List.mem_filter, List.isPrefixOf_iff_prefix]
      exact ⟨List.mem_map_of_mem hl, hopening⟩
    obtain ⟨r, hr, hrl⟩ := List.mem_map.mp hmem
    obtain ⟨hend, hline⟩ := contained_of_mem hr
    exact contained_of_unindented (hrl ▸ hend) (hrl ▸ hline)
  · intro style pages s text h
    obtain ⟨ls, hls, rfl⟩ := map_eq_ok_iff.mp h
    have hshows := Shows.testFileLines hls
    refine ⟨?_, fun hstyle => ?_⟩
    · obtain ⟨rows, rfl, hrows, hremarks⟩ := hshows
      exact ⟨rows, rfl, fun r hr => (hrows r hr).1, hremarks⟩
    · rw [hshows.lines rfl (hindent style hstyle), List.map_map]
      rfl

/-- A suite whose texts would break out of comments. -/
def chattySuite : Suite :=
  .make ⟨7⟩ ⟨8⟩ "Checkout" [{
    id := ⟨9⟩
    name := "pays"
    description := some "one\n// two\u2028three"
    steps := [⟨"click", "#pay", none, some "*/\r\nstop();", none⟩]
    beforeEach := none
    afterEach := some [⟨"hover", "#done", none, some " \t", none⟩]
    expectations := none
    enabled := true }]

section

open scoped Libraries.Lenient

theorem comments_contained_login : ∃ text file, pageObject Style.standard loginPage = .ok text
    ∧ testFile Style.standard (fun _ => none) chattySuite = .ok file
    ∧ ((linesOf text).map unindented).filter ("/**".toList.isPrefixOf ·)
      = ["/** one *\\/ two */".toList, "/** css: #user */".toList,
        "/** text: a\" *\\/ */".toList]
    ∧ ((linesOf file).map unindented).filter ("//".toList.isPrefixOf ·)
      = ["// ".toList, "// one // two three".toList, "// */ stop();".toList] := by
  have hindent : ∀ c ∈ Style.standard.indent.toList, c = ' ' ∨ c = '\t' := by
    simp [Style.standard]
  obtain ⟨text, htext⟩ := pageObject_login
  obtain ⟨file, hfile⟩ : ∃ file, testFile Style.standard (fun _ => none) chattySuite = .ok file :=
    ⟨_, rfl⟩
  obtain ⟨-, -, hpage, hsuite⟩ := comments_contained
  refine ⟨text, file, htext, hfile, ?_, ?_⟩
  · exact (hpage _ _ _ hindent htext).1.trans (by decide)
  · exact ((hsuite _ _ _ _ hfile).2 hindent).trans (by decide)

end

end Source
end Rehearsal
