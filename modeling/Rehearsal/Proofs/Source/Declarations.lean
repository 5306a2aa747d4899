import Mathlib
import Rehearsal.Proofs.Json.Sorted
import Rehearsal.Proofs.Source.Checks
import Rehearsal.Proofs.Source.ClassFile

/-!
# What a class file declares

The texts of a page end up in names, literals and comments of its class.  Whatever they are, the
file is read back line by line, and says what it was made to say.

* `clauses?`: what the lines of a file say, if each one says something.
* `Declares`: **one getter for each selector**, in order, one for the frame if there is one, and
  one line that waits for each condition.
* `pageObject_declares`: when there is a class file, and what it declares.  The number of its lines
  (`lineCount`) depends on no text.
* `class_declarable_iff`: the class is named after the page, and **two ways of naming a page make
  it a class that cannot be declared**.
-/

namespace Rehearsal.Source

open Text

/-! ## Reading a file -/

/-- What lines say. -/
def readLines : List (List Char) → Option (List Clause)
  | [] => some []
  | l :: ls => do
    let c ← Clause.read (unindented l)
    let cs ← readLines ls
    return c :: cs

/-- What the lines of a file say.  The last line is ended too, so nothing follows it. -/
def clauses? (text : String) : Option (List Clause) :=
  if (linesOf text).getLast? = some [] then readLines (linesOf text).dropLast else none

lemma unbroken_of_means {ls : List String} {cs : List Clause} (h : List.Forall₂ Means ls cs) :
    ∀ l ∈ ls, Unbroken l := by
  induction h with
  | nil => simp
  | cons hl _ ih => exact List.forall_mem_cons.mpr ⟨hl.1, ih⟩

/-- A file is read by its lines. -/
lemma clauses?_unlines {ls : List String} {cs : List Clause} (h : List.Forall₂ Means ls cs) :
    clauses? (unlines ls) = some cs := by
  have hone : ∀ l ∈ ls, OneLine l := fun l hl => (unbroken_of_means h l hl).oneLine
  have hread : readLines (ls.map String.toList) = some cs := by
    clear hone
    induction h with
    | nil => rfl
    | cons hl _ ih =>
        rw [List.map_cons, readLines, hl.2, ih]
        rfl
  rw [clauses?, linesOf_unlines hone, List.getLast?_concat, if_pos rfl, List.dropLast_concat,
    hread]

/-- Only the ends of its lines break a file. -/
lemma count_unlines {ls : List String} (h : ∀ l ∈ ls, Unbroken l) :
    (unlines ls).toList.count '\n' = ls.length ∧ '\r' ∉ (unlines ls).toList := by
  have hfeed : "\n".toList = ['\n'] := rfl
  induction ls with
  | nil => exact ⟨rfl, List.not_mem_nil⟩
  | cons l ls ih =>
      obtain ⟨hl, hls⟩ := List.forall_mem_cons.mp h
      obtain ⟨hcount, hreturn⟩ := ih hls
      have hfree : l.toList.count '\n' = 0 := List.count_eq_zero.mpr hl.oneLine
      simp only [unlines, String.toList_append, hfeed, List.count_append, List.count_singleton_self,
        hfree, hcount, List.length_cons, List.mem_append, List.mem_singleton, not_or]
      exact ⟨by omega, ⟨fun hr => (hl _ hr).2 rfl, by decide⟩, hreturn⟩

/-! ## What a page asks for -/

/-- A line waits for a condition: for the selector of that name, or else for what the condition
says. -/
structure Answers (p : Page) (w : WaitCondition) (a : Awaited) : Prop where
  declared : ∀ s, (w.selector, s) ∈ p.selectors.entries → a.locator = s.locator
  raw : w.selector ∉ p.selectors.entries.map Prod.fst → a.locator = w.selector
  state : w.state = .ok a.state
  milliseconds : a.milliseconds = w.timeout * 1000

/-- What the lines of an accessor say. -/
def accessorClauses (e : String × Selector) : List Clause :=
  [.blank, .comment, .gets (accessorName e.1) "Locator", .returns "locator" e.2.locator, .closes]

/-- What the lines of the accessor for a frame say. -/
def frameClauses (frame : String) : List Clause :=
  [.blank, .gets "frame" "FrameLocator", .returns "frameLocator" frame, .closes]

/-- What the lines of the method that waits say. -/
def readyClauses (as : List Awaited) : List Clause :=
  if as.isEmpty then [] else .blank :: .prepares :: (as.map .awaits ++ [.closes])

/-- What the lines before the first getter say. -/
def headClauses (p : Page) : List Clause :=
  .imports :: .blank :: ((p.description.toList.map fun _ => .comment)
    ++ [.opens (className p.name), .pattern p.urlPattern, .blank, .constructs])

/-- What the lines of all getters say. -/
def getterClauses (p : Page) : List Clause :=
  p.selectors.entries.flatMap accessorClauses ++ p.iframeSelector.toList.flatMap frameClauses

/-- What the lines of the class for a page say. -/
def classClauses (p : Page) (as : List Awaited) : List Clause :=
  headClauses p ++ (getterClauses p ++ (readyClauses as ++ [.closes]))

/-! ## What is written is what is asked for -/

lemma named_of_isIdentifier {name : String} (h : IsIdentifier name) : Named name := by
  obtain ⟨c, cs, hname, hc, hcs⟩ := h
  refine ⟨fun hempty => ?_, ?_⟩
  · rw [hempty] at hname
    cases hname
  · rw [hname]
    refine List.forall_mem_cons.mpr ⟨?_, fun d hd => ?_⟩
    · rcases hc with hc | rfl
      · simp [isNameChar, isAlnum, Char.isAlphanum, hc]
      · decide
    · rw [isNameChar, hcs d hd, Bool.true_or]

lemma named_className {s : String} (h : className s ≠ "") : Named (className s) := by
  refine ⟨h, fun c hc => ?_⟩
  rw [className, String.toList_ofList] at hc
  rw [isNameChar, isAlnum_of_mem_classNameFrom hc, Bool.true_or]

lemma answers_conditionLocator {p : Page} {w : WaitCondition} {state : String}
    (h : w.state = .ok state) :
    Answers p w ⟨conditionLocator p w, state, w.timeout * 1000⟩ where
  declared s hs := by
    simp only [conditionLocator, SelectorMap.get?, Json.member?_of_mem p.selectors.distinct hs]
  raw hw := by
    simp only [conditionLocator, SelectorMap.get?, Json.member?_of_notMem hw]
  state := h
  milliseconds := rfl

/-- The accessors that are made are those of the selectors. -/
lemma accessorsFrom_eq {page : String} {es : List (String × Selector)} {taken : List String}
    {ms : List (String × Selector)} (h : accessorsFrom page taken es = .ok ms) :
    ms = es.map fun e => (accessorName e.1, e.2) := by
  induction es generalizing taken ms with
  | nil =>
      cases h
      rfl
  | cons e es ih =>
      obtain ⟨key, s⟩ := e
      rw [accessorsFrom] at h
      split_ifs at h
      obtain ⟨more, hmore, h⟩ := bind_eq_ok_iff.mp h
      cases h
      rw [ih hmore, List.map_cons]

/-- The lines of a class file in their parts: one accessor for each selector, and each has a
name. -/
lemma parts_of_pageObjectLines [Libraries] {style : Style} {p : Page} {ls : List String}
    (h : pageObjectLines style p = .ok ls) :
    className p.name ≠ "" ∧ (∀ e ∈ p.selectors.entries, accessorName e.1 ≠ "")
      ∧ ∃ ready, readyLines style p = .ok ready
        ∧ ls = classHead style p (className p.name)
          ++ p.selectors.entries.flatMap (fun e => accessorLines style (accessorName e.1) e.2)
          ++ p.iframeSelector.elim [] (frameLines style) ++ ready ++ ["\x7d"] := by
  obtain ⟨_, -, h⟩ := bind_eq_ok_iff.mp h
  dsimp only at h
  split_ifs at h with hne
  obtain ⟨ms, hms, h⟩ := bind_eq_ok_iff.mp h
  obtain ⟨ready, hready, h⟩ := bind_eq_ok_iff.mp h
  cases h
  have hfit : AccessorsFit p := (checks_accessors p).ok_iff.mp ⟨ms, hms⟩
  have hmembers : ms.flatMap (fun m => accessorLines style m.1 m.2)
      = p.selectors.entries.flatMap fun e => accessorLines style (accessorName e.1) e.2 := by
    rw [accessorsFrom_eq hms, List.flatMap_map]
  refine ⟨hne, fun e he h => hfit.named (List.mem_map.mpr ⟨e, he, h⟩), ready, hready, ?_⟩
  rw [← hmembers]
  cases p.iframeSelector <;> rfl

section lines

variable {style : Style} (hindent : ∀ c ∈ style.indent.toList, isIndent c = true)

include hindent

lemma means_accessorLines {e : String × Selector} (h : accessorName e.1 ≠ "") :
    List.Forall₂ Means (accessorLines style (accessorName e.1) e.2) (accessorClauses e) := by
  obtain ⟨key, s⟩ := e
  have hlabel : Unbroken (s.kind.label ++ ": ") ∧ '*' ∉ (s.kind.label ++ ": ").toList := by
    cases s.kind <;> decide
  have hname := named_of_isIdentifier (isIdentifier_accessorName h)
  have hbehind : "(): Locator \x7b" = "(): " ++ ("Locator" ++ " \x7b") := by decide
  have hgets : Means (style.line 1 ("get " ++ accessorName key ++ "(): Locator \x7b"))
      (.gets (accessorName key) "Locator") :=
    means_gets hindent hname (by decide) (by rw [String.append_assoc, hbehind])
  have hreturns : Means (style.line 2 ("return this.page.locator(" ++ quote s.locator ++ ");"))
      (.returns "locator" s.locator) := means_returns hindent (by decide) s.locator (by decide)
  have hcloses : Means (style.line 1 "\x7d") .closes := means_fixed hindent 1 .closes rfl
  exact .cons means_blank <| .cons (means_comment hindent 1 hlabel.1 hlabel.2 s.value) <|
    .cons hgets <| .cons hreturns <| .cons hcloses .nil

lemma means_accessors {es : List (String × Selector)} (h : ∀ e ∈ es, accessorName e.1 ≠ "") :
    List.Forall₂ Means (es.flatMap fun e => accessorLines style (accessorName e.1) e.2)
      (es.flatMap accessorClauses) := by
  induction es with
  | nil => exact .nil
  | cons e es ih =>
      obtain ⟨he, hes⟩ := List.forall_mem_cons.mp h
      exact List.rel_append (means_accessorLines hindent he) (ih hes)

lemma means_frameLines (frame : String) :
    List.Forall₂ Means (frameLines style frame) (frameClauses frame) := by
  have hgets : Means (style.line 1 "get frame(): FrameLocator \x7b")
      (.gets "frame" "FrameLocator") := means_gets hindent (by decide) (by decide) (by decide)
  have hreturns : Means (style.line 2 ("return this.page.frameLocator(" ++ quote frame ++ ");"))
      (.returns "frameLocator" frame) := means_returns hindent (by decide) frame (by decide)
  have hcloses : Means (style.line 1 "\x7d") .closes := means_fixed hindent 1 .closes rfl
  exact .cons means_blank <| .cons hgets <| .cons hreturns <| .cons hcloses .nil

/-- There is a line for each condition, and it answers the condition. -/
lemma means_waitLines {p : Page} {ws : List WaitCondition} {ls : List String}
    (h : waitLines style p ws = .ok ls) : ∃ as, List.Forall₂ (Answers p) ws as
      ∧ List.Forall₂ Means ls (as.map .awaits) := by
  induction ws generalizing ls with
  | nil =>
      cases h
      exact ⟨[], .nil, .nil⟩
  | cons w ws ih =>
      obtain ⟨state, hstate, h⟩ := bind_eq_ok_iff.mp h
      obtain ⟨more, hmore, h⟩ := bind_eq_ok_iff.mp h
      cases h
      obtain ⟨as, hanswers, hmeans⟩ := ih hmore
      exact ⟨_ :: as, .cons (answers_conditionLocator hstate) hanswers,
        .cons (means_awaits hindent p w state) hmeans⟩

lemma means_readyLines {p : Page} {ls : List String} (h : readyLines style p = .ok ls) :
    ∃ as, List.Forall₂ (Answers p) p.waitConditions as
      ∧ List.Forall₂ Means ls (readyClauses as) := by
  rw [readyLines] at h
  split_ifs at h with hempty
  · cases h
    rw [List.isEmpty_iff.mp hempty]
    exact ⟨[], .nil, .nil⟩
  · obtain ⟨more, hmore, h⟩ := bind_eq_ok_iff.mp h
    cases h
    obtain ⟨as, hanswers, hmeans⟩ := means_waitLines hindent hmore
    have has : as.isEmpty = false := by
      rw [List.isEmpty_eq_false_iff, ← List.length_pos_iff_ne_nil, ← hanswers.length_eq,
        List.length_pos_iff_ne_nil]
      simpa using hempty
    have hprepares : Means (style.line 1 "async waitUntilReady(): Promise<void> \x7b") .prepares :=
      means_fixed hindent 1 .prepares rfl
    have hcloses : Means (style.line 1 "\x7d") .closes := means_fixed hindent 1 .closes rfl
    refine ⟨as, hanswers, ?_⟩
    rw [readyClauses, has, if_neg Bool.false_ne_true]
    exact .cons means_blank <| .cons hprepares <| List.rel_append hmeans (.cons hcloses .nil)

lemma means_classHead {p : Page} (hne : className p.name ≠ "") :
    List.Forall₂ Means (classHead style p (className p.name)) (headClauses p) := by
  have hzero : ∀ text, style.line 0 text = text := fun _ => String.empty_append
  have himports : Means Keyword.imports.opening .imports := by
    have h := means_fixed hindent 0 .imports rfl
    rwa [hzero] at h
  have hopens := means_opens hindent (named_className hne)
  rw [hzero] at hopens
  have hconstructs : Means (style.line 1 "constructor(private readonly page: Page) \x7b\x7d")
      .constructs := means_fixed hindent 1 .constructs rfl
  have hrest : List.Forall₂ Means
      ["export class " ++ className p.name ++ " \x7b",
        style.line 1 ("static readonly URL_PATTERN = " ++ quote p.urlPattern ++ ";"), "",
        style.line 1 "constructor(private readonly page: Page) \x7b\x7d"]
      [.opens (className p.name), .pattern p.urlPattern, .blank, .constructs] :=
    .cons hopens <| .cons (means_pattern hindent p.urlPattern) <| .cons means_blank <|
      .cons hconstructs .nil
  rw [classHead, headClauses, List.append_assoc]
  refine .cons himports <| .cons means_blank ?_
  cases p.description with
  | none => exact hrest
  | some d =>
      have hcomment : Means (style.line 0 (docLine ("" ++ docComment d))) .comment :=
        means_comment hindent 0 (by decide) (by decide) d
      rw [hzero, String.empty_append] at hcomment
      exact .cons hcomment hrest

/-- **A class file is read back.** -/
theorem means_pageObjectLines [Libraries] {p : Page} {ls : List String}
    (h : pageObjectLines style p = .ok ls) : ∃ as, List.Forall₂ (Answers p) p.waitConditions as
      ∧ List.Forall₂ Means ls (classClauses p as) := by
  obtain ⟨hne, hnamed, ready, hready, rfl⟩ := parts_of_pageObjectLines h
  obtain ⟨as, hanswers, hmeans⟩ := means_readyLines hindent hready
  have hmembers := means_accessors hindent hnamed
  have hcloses : Means "\x7d" .closes := by
    have h := means_fixed hindent 0 .closes rfl
    rwa [Style.line, Style.pad, String.empty_append] at h
  refine ⟨as, hanswers, ?_⟩
  rw [classClauses, getterClauses]
  simp only [List.append_assoc]
  refine List.rel_append (means_classHead hindent hne) <| List.rel_append hmembers <|
    List.rel_append ?_ <| List.rel_append hmeans (.cons hcloses .nil)
  cases p.iframeSelector with
  | none => exact .nil
  | some f =>
      rw [Option.toList_some, List.flatMap_singleton]
      exact means_frameLines hindent f

end lines

/-! ## What a file declares -/

/-- A getter: its name, its type, and what the line after that says. -/
structure Getter where
  name : String
  type : String
  body : Option Clause
deriving DecidableEq

/-- The getters among clauses, in order. -/
def getters : List Clause → List Getter
  | [] => []
  | .gets name type :: rest => ⟨name, type, rest.head?⟩ :: getters rest
  | _ :: rest => getters rest

/-- What a clause waits for. -/
def Clause.awaited? : Clause → Option Awaited
  | .awaits a => some a
  | _ => none

/-- The class that a clause opens. -/
def Clause.opened? : Clause → Option String
  | .opens name => some name
  | _ => none

lemma Clause.awaited?_eq_none {c : Clause} (h : ∀ a, c ≠ .awaits a) : c.awaited? = none := by
  cases c with
  | awaits a => exact absurd rfl (h a)
  | _ => rfl

lemma Clause.opened?_eq_none {c : Clause} (h : ∀ name, c ≠ .opens name) : c.opened? = none := by
  cases c with
  | opens name => exact absurd rfl (h name)
  | _ => rfl

/-- The getter of a selector. -/
def accessorOf (e : String × Selector) : Getter :=
  ⟨accessorName e.1, "Locator", some (.returns "locator" e.2.locator)⟩

/-- The getter of a frame. -/
def frameOf (frame : String) : Getter :=
  ⟨"frame", "FrameLocator", some (.returns "frameLocator" frame)⟩

lemma getters_accessors (es : List (String × Selector)) (rest : List Clause) :
    getters (es.flatMap accessorClauses ++ rest) = es.map accessorOf ++ getters rest := by
  induction es with
  | nil => rfl
  | cons e es ih =>
      rw [List.flatMap_cons, List.append_assoc, List.map_cons, List.cons_append, ← ih]
      rfl

lemma getters_frame (frame : Option String) (rest : List Clause) :
    getters (frame.toList.flatMap frameClauses ++ rest)
      = frame.toList.map frameOf ++ getters rest := by
  cases frame <;> rfl

/-- The method that waits is no getter. -/
lemma getters_ready (as : List Awaited) : getters (readyClauses as ++ [.closes]) = [] := by
  have hlines : getters (as.map Clause.awaits ++ [.closes, .closes]) = [] := by
    induction as with
    | nil => rfl
    | cons a as ih => exact ih
  rw [readyClauses]
  split_ifs
  · rfl
  · rw [List.cons_append, List.cons_append, List.append_assoc]
    exact hlines

lemma getters_classClauses (p : Page) (as : List Awaited) : getters (classClauses p as)
    = p.selectors.entries.map accessorOf ++ p.iframeSelector.toList.map frameOf := by
  have hmembers : getters (getterClauses p ++ (readyClauses as ++ [.closes]))
      = p.selectors.entries.map accessorOf ++ p.iframeSelector.toList.map frameOf := by
    rw [getterClauses, List.append_assoc, getters_accessors, getters_frame, getters_ready,
      List.append_nil]
  rw [classClauses, headClauses, ← hmembers]
  cases p.description <;> rfl

/-- No line of a getter waits for anything or opens a class. -/
lemma filterMap_getterClauses {α : Type} {f : Clause → Option α}
    (h : ∀ c, (∀ a, c ≠ .awaits a) → (∀ name, c ≠ .opens name) → f c = none) (p : Page) :
    (getterClauses p).filterMap f = [] := by
  rw [getterClauses, List.filterMap_eq_nil_iff]
  intro c hc
  refine h c ?_ ?_ <;> rintro _ rfl <;> simp [accessorClauses, frameClauses] at hc

lemma awaited_classClauses (p : Page) (as : List Awaited) :
    (classClauses p as).filterMap Clause.awaited? = as := by
  have hhead : (headClauses p).filterMap Clause.awaited? = [] := by
    rw [headClauses]
    cases p.description <;> rfl
  have hgetters : (getterClauses p).filterMap Clause.awaited? = [] :=
    filterMap_getterClauses (fun _ hc _ => Clause.awaited?_eq_none hc) p
  have hlines : (as.map Clause.awaits).filterMap Clause.awaited? = as := by
    rw [List.filterMap_map]
    exact List.filterMap_some
  have hready : (readyClauses as).filterMap Clause.awaited? = as := by
    rw [readyClauses]
    split_ifs with hempty
    · rw [List.isEmpty_iff.mp hempty]
      rfl
    · simp only [List.filterMap_cons, List.filterMap_append, hlines, Clause.awaited?,
        List.filterMap_nil, List.append_nil]
  rw [classClauses, List.filterMap_append, List.filterMap_append, List.filterMap_append, hhead,
    hgetters, hready]
  exact List.append_nil as

lemma opened_classClauses (p : Page) (as : List Awaited) :
    (classClauses p as).filterMap Clause.opened? = [className p.name] := by
  have hhead : (headClauses p).filterMap Clause.opened? = [className p.name] := by
    rw [headClauses]
    cases p.description <;> rfl
  have hgetters : (getterClauses p).filterMap Clause.opened? = [] :=
    filterMap_getterClauses (fun _ _ hc => Clause.opened?_eq_none hc) p
  have hready : (readyClauses as).filterMap Clause.opened? = [] := by
    rw [readyClauses, List.filterMap_eq_nil_iff]
    intro c hc
    split_ifs at hc
    · cases hc
    · simp only [List.mem_cons, List.mem_append, List.mem_map, List.not_mem_nil, or_false] at hc
      rcases hc with rfl | rfl | ⟨a, -, rfl⟩ | rfl <;> rfl
  rw [classClauses, List.filterMap_append, List.filterMap_append, List.filterMap_append, hhead,
    hgetters, hready]
  rfl

/-- The number of lines of a class file. -/
def lineCount (selectors conditions : Nat) (described framed : Bool) : Nat :=
  7 + 5 * selectors + (if conditions = 0 then 0 else 3 + conditions) + described.toNat
    + 4 * framed.toNat

lemma length_classClauses (p : Page) (as : List Awaited) : (classClauses p as).length
    = lineCount p.selectors.size as.length p.description.isSome p.iframeSelector.isSome := by
  have haccessors : (p.selectors.entries.flatMap accessorClauses).length
      = 5 * p.selectors.entries.length := by
    induction p.selectors.entries with
    | nil => rfl
    | cons e es ih =>
        rw [List.flatMap_cons, List.length_append, ih, accessorClauses]
        simp only [List.length_cons, List.length_nil]
        omega
  have hhead : (headClauses p).length = 6 + p.description.isSome.toNat := by
    rw [headClauses]
    cases p.description <;> rfl
  have hframe : (p.iframeSelector.toList.flatMap frameClauses).length
      = 4 * p.iframeSelector.isSome.toNat := by
    cases p.iframeSelector <;> rfl
  have hready : (readyClauses as).length = if as.length = 0 then 0 else 3 + as.length := by
    rw [readyClauses]
    cases as with
    | nil => rfl
    | cons a as =>
        simp only [List.isEmpty_cons, Bool.false_eq_true, if_false, List.length_cons,
          List.length_append, List.length_map, List.length_nil, Nat.succ_ne_zero]
        omega
  simp only [classClauses, getterClauses, List.length_append, haccessors, hhead, hframe, hready,
    List.length_cons, List.length_nil, lineCount, SelectorMap.size]
  omega

/-- What the class for a page declares. -/
structure Declares (p : Page) (cs : List Clause) : Prop where
  getters : getters cs
    = p.selectors.entries.map accessorOf ++ p.iframeSelector.toList.map frameOf
  identifiers : ∀ e ∈ p.selectors.entries, IsIdentifier (accessorName e.1)
  awaited : List.Forall₂ (Answers p) p.waitConditions (cs.filterMap Clause.awaited?)

/-- What the file for a page comes to: it is read back, and broken at the ends of its lines
only. -/
structure ReadsBack (p : Page) (text : String) (as : List Awaited) : Prop where
  clauses : clauses? text = some (classClauses p as)
  answers : List.Forall₂ (Answers p) p.waitConditions as
  feeds : text.toList.count '\n' = (classClauses p as).length
  returns : '\r' ∉ text.toList

section

variable [Libraries]

lemma reads_pageObject {style : Style} (hindent : ∀ c ∈ style.indent.toList, isIndent c = true)
    {p : Page} {text : String} (h : pageObject style p = .ok text) : ∃ as, ReadsBack p text as := by
  obtain ⟨ls, hls, rfl⟩ := map_eq_ok_iff.mp h
  obtain ⟨as, hanswers, hmeans⟩ := means_pageObjectLines hindent hls
  obtain ⟨hfeeds, hreturns⟩ := count_unlines (unbroken_of_means hmeans)
  exact ⟨as, clauses?_unlines hmeans, hanswers, hfeeds.trans hmeans.length_eq, hreturns⟩

/-- When there is a class for a page. -/
lemma pageObject_iff (style : Style) (p : Page) : (∃ text, pageObject style p = .ok text) ↔
    p.validate = .ok () ∧ hasAlnum p.name = true ∧ AccessorsFit p := by
  have hvalid : (∃ text, pageObject style p = .ok text) → p.validate = .ok () := by
    rintro ⟨text, h⟩
    obtain ⟨ls, hls, -⟩ := map_eq_ok_iff.mp h
    obtain ⟨_, hvalid, -⟩ := bind_eq_ok_iff.mp hls
    exact hvalid
  constructor
  · exact fun h => ⟨hvalid h, (checks_pageObject style (hvalid h)).ok_iff.mp h⟩
  · exact fun h => (checks_pageObject style h.1).ok_iff.mpr h.2

/-- **When there is a class for a page, and what it declares**: one getter for each selector, in
order, with an identifier for a name and a literal that stands for the locator; one for the frame
just when there is one; one line for each wait condition, in order.  No text of the page adds a
line or breaks one. -/
theorem pageObject_declares {style : Style}
    (hindent : ∀ c ∈ style.indent.toList, c = ' ' ∨ c = '\t') (p : Page) :
    ((∃ text, pageObject style p = .ok text) ↔
        p.validate = .ok () ∧ hasAlnum p.name = true ∧ AccessorsFit p)
      ∧ ∀ text, pageObject style p = .ok text →
        (∃ cs, clauses? text = some cs ∧ Declares p cs)
          ∧ text.toList.count '\n' = lineCount p.selectors.size p.waitConditions.length
              p.description.isSome p.iframeSelector.isSome
          ∧ '\r' ∉ text.toList := by
  have hindent' : ∀ c ∈ style.indent.toList, isIndent c = true :=
    fun c hc => by simpa [isIndent] using hindent c hc
  refine ⟨pageObject_iff style p, fun text h => ?_⟩
  obtain ⟨as, hreads⟩ := reads_pageObject hindent' h
  obtain ⟨-, -, hfit⟩ := (pageObject_iff style p).mp ⟨text, h⟩
  refine ⟨⟨classClauses p as, hreads.clauses, getters_classClauses p as, fun e he => ?_, ?_⟩,
    ?_, hreads.returns⟩
  · exact isIdentifier_accessorName fun h => hfit.named (List.mem_map.mpr ⟨e, he, h⟩)
  · rw [awaited_classClauses]
    exact hreads.answers
  · rw [hreads.feeds, length_classClauses, hreads.answers.length_eq]

end

/-- Two selectors, a frame and two conditions, in texts that would break a file. -/
def loginPage : Page where
  id := ⟨1⟩
  name := "Login page"
  urlPattern := "https://example.org/login"
  description := some "one\n*/ two"
  selectors := ⟨[("user name", ⟨.css, "#user"⟩), ("2nd factor", ⟨.text, "a\"\n*/"⟩)], by decide⟩
  waitConditions := [⟨"user name", "visible", 30⟩, ⟨"#form", "hidden", 5⟩]
  iframeSelector := some "iframe"

section login

open scoped Libraries.Lenient

lemma pageObject_login : ∃ text, pageObject Style.standard loginPage = .ok text := by
  refine (pageObject_iff Style.standard loginPage).mpr ⟨by decide +kernel, by decide, ?_⟩
  constructor
  case named => decide
  case free => decide
  case distinct => decide

theorem pageObject_declares_login : ∃ text cs, pageObject Style.standard loginPage = .ok text
    ∧ clauses? text = some cs ∧ text.toList.count '\n' = 27
    ∧ getters cs = [⟨"userName", "Locator", some (.returns "locator" "#user")⟩,
        ⟨"_2ndFactor", "Locator", some (.returns "locator" "text=a\"\n*/")⟩,
        ⟨"frame", "FrameLocator", some (.returns "frameLocator" "iframe")⟩] := by
  have hindent : ∀ c ∈ Style.standard.indent.toList, c = ' ' ∨ c = '\t' := by
    simp [Style.standard]
  obtain ⟨text, htext⟩ := pageObject_login
  obtain ⟨⟨cs, hcs, hdeclares⟩, hcount, -⟩ :=
    (pageObject_declares hindent loginPage).2 text htext
  exact ⟨text, cs, htext, hcs, hcount, hdeclares.getters.trans (by decide)⟩

end login

/-! ## The class itself -/

/-- A class can be declared in its file: its name is an identifier, and nothing that the file
imports has that name. -/
structure Declarable (name : String) : Prop where
  identifier : IsIdentifier name
  unimported : name ∉ imported

/-- **The one class of the file is named after the page, and can be declared just when the first
letter or digit of that name is a letter and the class is called nothing that is imported.** -/
theorem class_declarable_iff [Libraries] {style : Style}
    (hindent : ∀ c ∈ style.indent.toList, c = ' ' ∨ c = '\t') {p : Page} {text : String}
    (h : pageObject style p = .ok text) :
    ∃ cs, clauses? text = some cs ∧ cs.head? = some .imports
      ∧ cs.filterMap Clause.opened? = [className p.name]
      ∧ (Declarable (className p.name) ↔
          (∃ c, p.name.toList.find? isAlnum = some c ∧ c.isAlpha = true)
            ∧ className p.name ∉ imported) := by
  have hindent' : ∀ c ∈ style.indent.toList, isIndent c = true :=
    fun c hc => by simpa [isIndent] using hindent c hc
  obtain ⟨as, hreads⟩ := reads_pageObject hindent' h
  refine ⟨_, hreads.clauses, rfl, opened_classClauses p as, ?_⟩
  rw [← isIdentifier_className_iff]
  exact ⟨fun h => ⟨h.identifier, h.unimported⟩, fun h => ⟨h.1, h.2⟩⟩

section

open scoped Libraries.Lenient

theorem class_declarable_login : ∃ text cs, pageObject Style.standard loginPage = .ok text
    ∧ clauses? text = some cs ∧ cs.filterMap Clause.opened? = ["LoginPage"]
    ∧ Declarable "LoginPage" := by
  obtain ⟨text, htext⟩ := pageObject_login
  obtain ⟨cs, hcs, -, hopened, hdeclarable⟩ :=
    class_declarable_iff (by simp [Style.standard]) htext
  have hname : className loginPage.name = "LoginPage" := by decide
  rw [hname] at hopened hdeclarable
  exact ⟨text, cs, htext, hcs, hopened, hdeclarable.mpr ⟨⟨'L', by decide, by decide⟩, by decide⟩⟩

end

/-- A page without selectors has a class if its name is of any use. -/
lemma opened_make [Libraries] (name pattern : String)
    (hvalid : (Page.make ⟨1⟩ name pattern).validate = .ok ()) (hname : hasAlnum name = true) :
    ∃ text cs, pageObject Style.standard (Page.make ⟨1⟩ name pattern) = .ok text
      ∧ clauses? text = some cs ∧ cs.filterMap Clause.opened? = [className name] := by
  have hfit : AccessorsFit (Page.make ⟨1⟩ name pattern) :=
    ⟨List.not_mem_nil, fun _ h => absurd h List.not_mem_nil, List.nodup_nil⟩
  obtain ⟨text, htext⟩ := (pageObject_iff Style.standard _).mpr ⟨hvalid, hname, hfit⟩
  have hindent : ∀ c ∈ Style.standard.indent.toList, isIndent c = true := by
    simp [Style.standard, isIndent]
  obtain ⟨as, hreads⟩ := reads_pageObject hindent htext
  exact ⟨text, _, htext, hreads.clauses, opened_classClauses _ as⟩

section

open scoped Libraries.Lenient

/-- **Two classes that cannot be declared**: one begins with a digit, and one is called like a
type that the file imports. -/
theorem class_undeclarable :
    (∃ text cs, pageObject Style.standard (Page.make ⟨1⟩ "2FA" "https://a") = .ok text
        ∧ clauses? text = some cs ∧ cs.filterMap Clause.opened? = ["2FA"] ∧ ¬Declarable "2FA")
      ∧ ∃ text cs, pageObject Style.standard (Page.make ⟨1⟩ "page" "https://a") = .ok text
        ∧ clauses? text = some cs ∧ cs.filterMap Clause.opened? = ["Page"]
        ∧ ¬Declarable "Page" := by
  constructor
  · obtain ⟨text, cs, htext, hcs, hopened⟩ := opened_make "2FA" "https://a"
      (by decide +kernel) (by decide)
    refine ⟨text, cs, htext, hcs, hopened.trans (by decide), fun h => ?_⟩
    obtain ⟨c, _, hname, hc, -⟩ := h.identifier
    obtain ⟨rfl, -⟩ := List.cons.inj (show '2' :: ['F', 'A'] = _ from hname)
    exact absurd hc (by decide)
  · obtain ⟨text, cs, htext, hcs, hopened⟩ := opened_make "page" "https://a"
      (by decide +kernel) (by decide)
    exact ⟨text, cs, htext, hcs, hopened.trans (by decide),
      fun h => h.unimported (by decide)⟩

end

end Rehearsal.Source
