import Rehearsal.Table
import Rehearsal.Page
import Rehearsal.Suite
/-!
# The catalog

Pages, suites and projects, each found by its identifier.

* `Catalog.putPage`: only a valid page is taken. Hence **every page of the catalog is valid
  and stands under its own identifier**.
* `Catalog.load`: a bundle is taken page by page, then suite by suite, then project by
  project. At the first page that is not valid it stops, with the pages before it taken.
-/

namespace Rehearsal

/-- Everything that tests are generated from. -/
structure Catalog where
  pages : Table Uuid Page
  suites : Table Uuid Suite
  projects : Table Uuid Project

/-- Pages, suites and projects as they are handed over together. -/
structure Bundle where
  projects : List Project
  pages : List Page
  suites : List Suite

def Bundle.reader : Json.Reader Bundle := fun room n => do
  let es ← Json.Entries.read ["projects", "pages", "suites"] room n
  return {
    projects := ← es.defaulted "projects" [] (Json.Reader.list Project.reader)
    pages := ← es.defaulted "pages" [] (Json.Reader.list Page.reader)
    suites := ← es.defaulted "suites" [] (Json.Reader.list Suite.reader) }

namespace Catalog

def empty : Catalog := ⟨.empty, .empty, .empty⟩

instance : Inhabited Catalog := ⟨empty⟩

def page? (c : Catalog) (id : Uuid) : Option Page := c.pages.get? id

def suite? (c : Catalog) (id : Uuid) : Option Suite := c.suites.get? id

def project? (c : Catalog) (id : Uuid) : Option Project := c.projects.get? id

section

variable [Libraries]

/-- Takes a valid page, in place of one with the same identifier. -/
def putPage (c : Catalog) (p : Page) : Except Error Catalog := do
  p.validate
  return { c with pages := c.pages.put p.id p }

def putSuite (c : Catalog) (s : Suite) : Catalog := { c with suites := c.suites.put s.id s }

def putProject (c : Catalog) (p : Project) : Catalog :=
  { c with projects := c.projects.put p.id p }

/-- Takes pages in order up to the first that is not valid: the catalog then, and the fault. -/
def putPages (c : Catalog) : List Page → Catalog × Except Error Unit
  | [] => (c, .ok ())
  | p :: rest =>
    match c.putPage p with
    | .ok d => d.putPages rest
    | .error e => (c, .error e)

/-- Takes a bundle: the catalog then, and the fault if there is one. -/
def load (c : Catalog) (b : Bundle) : Catalog × Except Error Unit :=
  match c.putPages b.pages with
  | (d, .error e) => (d, .error e)
  | (d, .ok ()) => (b.projects.foldl putProject (b.suites.foldl putSuite d), .ok ())

end

end Catalog

end Rehearsal
