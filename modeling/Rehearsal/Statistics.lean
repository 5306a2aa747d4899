import Rehearsal.Execution
/-!
# Statistics

A summary of a list of executions.

* `Statistics.ofExecutions`: completed executions count as passed, failed ones as failed, all
  others only in the total. The mean duration is over those that have a start and an end.
-/

namespace Rehearsal

/-- A summary of executions. -/
structure Statistics where
  total : Nat
  passed : Nat
  failed : Nat
  averageSeconds : Binary64
  successPercent : Binary64
deriving DecidableEq, Repr

namespace Statistics

/-- The sum of numbers, from the first to the last. -/
def sum (xs : List Binary64) : Binary64 := xs.foldl Binary64.add (Binary64.ofNat 0)

/-- The mean, or zero if there is nothing to take it of. -/
def mean (xs : List Binary64) : Binary64 :=
  if xs.isEmpty then Binary64.ofNat 0 else (sum xs).div (Binary64.ofNat xs.length)

/-- A part of a total in percent, or zero of nothing. -/
def percent (part total : Nat) : Binary64 :=
  if total = 0 then Binary64.ofNat 0
  else ((Binary64.ofNat part).div (Binary64.ofNat total)).mul (Binary64.ofNat 100)

/-- How many executions are in a state. -/
def countIn (status : Status) (es : List Execution) : Nat := es.countP fun e => e.status == status

/-- The summary of executions. -/
def ofExecutions (es : List Execution) : Statistics where
  total := es.length
  passed := countIn .completed es
  failed := countIn .failed es
  averageSeconds := mean (es.filterMap Execution.seconds?)
  successPercent := percent (countIn .completed es) es.length

def toValue (s : Statistics) : Json.Value :=
  Json.record [
    ("total", some (.num (.int s.total))),
    ("passed_count", some (.num (.int s.passed))),
    ("failed_count", some (.num (.int s.failed))),
    ("average_duration_seconds", some (.num (.real s.averageSeconds))),
    ("success_rate_percent", some (.num (.real s.successPercent)))]

end Statistics

end Rehearsal
