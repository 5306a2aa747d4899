import Rehearsal.Source.Lines
import Rehearsal.Text.Name
import Rehearsal.Text.Comment
import Rehearsal.Page
/-!
# Page objects

A page becomes a class with one accessor for each selector, in the order of declaration.

* `accessors`: the names of the accessors. They are **distinct, not empty and none of the names
  the class needs itself**; otherwise there is no class.
* `pageObject`: the class. The number of its lines depends only on how many selectors and wait
  conditions the page has and on whether it has a description and a frame.
-/

namespace Rehearsal.Source

/-- Members that the class defines itself. -/
def reservedMembers : List String := ["page", "frame", "waitUntilReady", "constructor"]

/-- The accessors of selectors, given the names that are taken. -/
def accessorsFrom (page : String) (taken : List String) :
    List (String × Selector) → Except Error (List (String × Selector))
  | [] => .ok []
  | (key, s) :: rest =>
    let name := Text.accessorName key
    if name = "" || taken.contains name then .error (.clashingAccessor key page)
    else do
      let more ← accessorsFrom page (name :: taken) rest
      return (name, s) :: more

/-- The accessors of a page, each with its selector. -/
def accessors (p : Page) : Except Error (List (String × Selector)) :=
  accessorsFrom p.name reservedMembers p.selectors.entries

/-- A documentation comment. -/
def docLine (text : String) : String := "/** " ++ text ++ " */"

/-- The lines of one accessor. -/
def accessorLines (style : Style) (name : String) (s : Selector) : List String :=
  ["",
   style.line 1 (docLine (s.kind.label ++ ": " ++ Text.docComment s.value)),
   style.line 1 ("get " ++ name ++ "(): Locator \x7b"),
   style.line 2 ("return this.page.locator(" ++ Text.quote s.locator ++ ");"),
   style.line 1 "\x7d"]

/-- The lines of the accessor for a frame. -/
def frameLines (style : Style) (frame : String) : List String :=
  ["",
   style.line 1 "get frame(): FrameLocator \x7b",
   style.line 2 ("return this.page.frameLocator(" ++ Text.quote frame ++ ");"),
   style.line 1 "\x7d"]

/-- The locator of a condition: of the selector that it names, or else what it says. -/
def conditionLocator (p : Page) (w : WaitCondition) : String :=
  match p.selectors.get? w.selector with
  | some s => s.locator
  | none => w.selector

/-- The line that waits for a condition; the time is written in milliseconds. -/
def waitLine (style : Style) (p : Page) (w : WaitCondition) (state : String) : String :=
  style.line 2 ("await this.page.locator(" ++ Text.quote (conditionLocator p w)
    ++ ").waitFor(\x7b state: " ++ Text.quote state ++ ", timeout: "
    ++ Json.Number.digits (w.timeout * 1000) ++ " \x7d);")

/-- The lines that wait for all conditions. -/
def waitLines (style : Style) (p : Page) : List WaitCondition → Except Error (List String)
  | [] => .ok []
  | w :: rest => do
    let state ← w.state
    let lines ← waitLines style p rest
    return waitLine style p w state :: lines

/-- The lines of the method that waits, if there is anything to wait for. -/
def readyLines (style : Style) (p : Page) : Except Error (List String) :=
  if p.waitConditions.isEmpty then .ok []
  else do
    let lines ← waitLines style p p.waitConditions
    return ["", style.line 1 "async waitUntilReady(): Promise<void> \x7b"] ++ lines
      ++ [style.line 1 "\x7d"]

/-- The lines before the first member. -/
def classHead (style : Style) (p : Page) (className : String) : List String :=
  ["import \x7b type Page, type Locator, type FrameLocator \x7d from '@playwright/test';", ""]
    ++ (match p.description with
        | some d => [docLine (Text.docComment d)]
        | none => [])
    ++ ["export class " ++ className ++ " \x7b",
        style.line 1 ("static readonly URL_PATTERN = " ++ Text.quote p.urlPattern ++ ";"),
        "",
        style.line 1 "constructor(private readonly page: Page) \x7b\x7d"]

/-- The lines of the class for a page. -/
def pageObjectLines [Libraries] (style : Style) (p : Page) : Except Error (List String) := do
  p.validate
  let className := Text.className p.name
  if className = "" then .error (.emptyClassName p.name)
  else do
    let members ← accessors p
    let ready ← readyLines style p
    return classHead style p className
      ++ members.flatMap (fun m => accessorLines style m.1 m.2)
      ++ (match p.iframeSelector with
          | some f => frameLines style f
          | none => [])
      ++ ready ++ ["\x7d"]

/-- The class for a page. -/
def pageObject [Libraries] (style : Style) (p : Page) : Except Error String :=
  (pageObjectLines style p).map unlines

end Rehearsal.Source
