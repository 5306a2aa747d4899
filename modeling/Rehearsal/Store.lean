import Rehearsal.Catalog
import Rehearsal.Logbook
/-!
# The store

What is kept in memory: the catalog that tests are generated from, and the logbook of their
executions. A call changes one of the two and leaves the other alone; a call that is refused
leaves both alone, except for `Catalog.load`, which keeps the pages it took.
-/

namespace Rehearsal

/-- A catalog and a logbook. -/
structure Store where
  catalog : Catalog
  logbook : Logbook

namespace Store

def empty : Store := ⟨.empty, .empty⟩

instance : Inhabited Store := ⟨empty⟩

/-- A call that writes to the store. -/
inductive Call where
  | putPage (page : Page)
  | putSuite (suite : Suite)
  | putProject (project : Project)
  | load (bundle : Bundle)
  | create (execution : Execution)
  | update (id : Uuid) (update : Update)
  | addRow (row : CaseResult)

/-- With another catalog, or as it is. -/
def withCatalog (s : Store) : Except Error Catalog → Store × Except Error Unit
  | .ok c => ({ s with catalog := c }, .ok ())
  | .error e => (s, .error e)

/-- With another logbook, or as it is. -/
def withLogbook (s : Store) : Except Error Logbook → Store × Except Error Unit
  | .ok l => ({ s with logbook := l }, .ok ())
  | .error e => (s, .error e)

/-- The store after a call, and the fault if the call is refused. -/
def call [Libraries] (s : Store) (now : Instant) : Call → Store × Except Error Unit
  | .putPage p => s.withCatalog (s.catalog.putPage p)
  | .putSuite x => s.withCatalog (.ok (s.catalog.putSuite x))
  | .putProject p => s.withCatalog (.ok (s.catalog.putProject p))
  | .load b => ({ s with catalog := (s.catalog.load b).1 }, (s.catalog.load b).2)
  | .create e => s.withLogbook (s.logbook.create e)
  | .update id u => s.withLogbook ((s.logbook.update now id u).map Prod.fst)
  | .addRow r => s.withLogbook (s.logbook.addRow r)

/-- The store after calls, each at its time, whether they are refused or not. -/
def callAll [Libraries] (s : Store) (calls : List (Instant × Call)) : Store :=
  calls.foldl (fun s c => (s.call c.1 c.2).1) s

end Store

end Rehearsal
