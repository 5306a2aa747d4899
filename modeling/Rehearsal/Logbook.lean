import Rehearsal.Table
import Rehearsal.Report.Result
/-!
# The logbook

The records of executions and the rows of their results.

* `Logbook.update`: a partial update of one record. Nothing is checked but that the record
  exists, so of two updates **the last one decides**.
* `Logbook.list`: the records that a filter holds of, in the order of their identifiers.
* `Logbook.addRow`: a row needs the record of its execution.
-/

namespace Rehearsal

/-- Records by identifier, and rows in the order in which they were added. -/
structure Logbook where
  records : Table Uuid Execution
  rows : List CaseResult

namespace Logbook

def empty : Logbook := ⟨.empty, []⟩

instance : Inhabited Logbook := ⟨empty⟩

def record? (l : Logbook) (id : Uuid) : Option Execution := l.records.get? id

/-- Adds a record under an identifier that is still free. -/
def create (l : Logbook) (e : Execution) : Except Error Logbook :=
  if l.records.contains e.id then .error (.duplicateExecution e.id)
  else .ok { l with records := l.records.put e.id e }

/-- Updates a record: the logbook and the record then. -/
def update (l : Logbook) (now : Instant) (id : Uuid) (u : Update) :
    Except Error (Logbook × Execution) :=
  match l.record? id with
  | none => .error (.unknownExecution id)
  | some e => .ok ({ l with records := l.records.put id (e.apply now u) }, e.apply now u)

/-- The order in which records are listed. -/
def before (d e : Execution) : Bool := d.id.le e.id

/-- The records that a filter holds of. -/
def list (l : Logbook) (f : Filter) : List Execution :=
  (l.records.values.filter f.holds).mergeSort before

/-- Adds a row. -/
def addRow (l : Logbook) (r : CaseResult) : Except Error Logbook :=
  if l.records.contains r.execution then .ok { l with rows := l.rows ++ [r] }
  else .error (.unknownExecution r.execution)

/-- The rows of an execution. -/
def rowsOf (l : Logbook) (id : Uuid) : List CaseResult :=
  l.rows.filter fun r => r.execution == id

end Logbook

end Rehearsal
