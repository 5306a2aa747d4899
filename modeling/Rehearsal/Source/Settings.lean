import Rehearsal.Source.Lines
import Rehearsal.Configuration
/-!
# Files that support a project

* `configFile`: the configuration of the runner, with one project for each browser.
* `packageFile`: the description of the generated project, with its members sorted.
* `assertionHelper`: the function that judges expectations. It never changes.
-/

namespace Rehearsal.Source

/-- A reporter as it stands in the configuration. -/
def reporterText (r : Reporter) : String :=
  if r.options.isEmpty then "[" ++ Text.quote r.name ++ "]"
  else "[" ++ Text.quote r.name ++ ", " ++ (Json.Value.obj r.options).compact ++ "]"

/-- The lines of a browser. -/
def browserLines (style : Style) (b : Browser) : List String :=
  [style.line 2 "\x7b",
   style.line 3 ("name: " ++ Text.quote b.name ++ ","),
   style.line 3 ("use: \x7b browserName: " ++ Text.quote b.name ++ " \x7d,"),
   style.line 2 "\x7d,"]

/-- The lines of the configuration. -/
def configLines (style : Style) (c : Configuration) : List String :=
  ["import \x7b defineConfig \x7d from '@playwright/test';",
   "",
   "export default defineConfig(\x7b",
   style.line 1 ("testDir: " ++ Text.quote style.testDir ++ ","),
   style.line 1 ("timeout: " ++ Json.Number.digits c.timeout ++ ","),
   style.line 1 ("retries: " ++ Json.Number.digits c.retries ++ ",")]
    ++ (match c.workers with
        | some n => [style.line 1 ("workers: " ++ Json.Number.digits n ++ ",")]
        | none => [])
    ++ [style.line 1 ("reporter: [" ++ Json.joinWith ", " (c.reporters.map reporterText) ++ "],"),
        style.line 1 "use: \x7b",
        style.line 2 ("headless: " ++ Json.boolText c.headless ++ ","),
        style.line 2 ("viewport: \x7b width: " ++ Json.Number.digits c.viewport.width
          ++ ", height: " ++ Json.Number.digits c.viewport.height ++ " \x7d,"),
        style.line 2 ("screenshot: " ++ Text.quote c.screenshots.name ++ ","),
        style.line 1 "\x7d,",
        style.line 1 "projects: ["]
    ++ c.browsers.flatMap (browserLines style)
    ++ [style.line 1 "],", "\x7d);"]

/-- The configuration of the runner. -/
def configFile (style : Style) (c : Configuration) : String := unlines (configLines style c)

/-- The description of a project of the given name. -/
def packageValue (name : String) : Json.Value :=
  .obj [
    ("devDependencies", .obj [("@playwright/test", .str "^1.40.0")]),
    ("name", .str name),
    ("private", .bool true),
    ("scripts", .obj [
      ("report", .str "playwright show-report"),
      ("test", .str "playwright test"),
      ("test:headed", .str "playwright test --headed")]),
    ("version", .str "1.0.0")]

/-- The description of a generated project. -/
def packageFile (name : String) : String := unlines [(packageValue name).pretty]

/-- One comparison of the assertion helper. -/
def comparisonLines (name call : String) : List String :=
  ["    case '" ++ name ++ "':", "      await expect(locator)." ++ call ++ ";", "      break;"]

/-- The function that judges expectations. -/
def assertionHelper : String :=
  unlines (["import \x7b expect, type Page \x7d from '@playwright/test';",
    "",
    "export async function assertExpected(",
    "  page: Page,",
    "  selector: string,",
    "  comparison: string,",
    "  expected: unknown,",
    "): Promise<void> \x7b",
    "  const locator = page.locator(selector);",
    "  switch (comparison) \x7b"]
    ++ comparisonLines "equals" "toHaveText(String(expected))"
    ++ comparisonLines "contains" "toContainText(String(expected))"
    ++ comparisonLines "regex" "toHaveText(new RegExp(String(expected)))"
    ++ comparisonLines "visible" "toBeVisible()"
    ++ comparisonLines "hidden" "toBeHidden()"
    ++ comparisonLines "count" "toHaveCount(Number(expected))"
    ++ ["    default:",
    "      throw new Error(\x60Unsupported comparison type: $\x7bcomparison\x7d\x60);",
    "  \x7d",
    "\x7d"])

end Rehearsal.Source
