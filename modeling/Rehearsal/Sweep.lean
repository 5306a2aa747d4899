import Rehearsal.Run
import Rehearsal.Text.Utf8
/-!
# Sweeping leftover workspaces

A run removes its own workspace. One that is left behind all the same is removed by a sweep
once it is old enough.

* `Sweep.cutoff`: the time that decides. A retention that reaches back further than times can
  be told counts back to the epoch.
* `Sweep.expired`: a directory with the name of a workspace that has not changed since.
* `Sweep.sweep`: removes what is expired **and nothing else**.
-/

namespace Rehearsal

/-- What an entry of a directory is. A link is not followed. -/
inductive Kind where
  | directory
  | file
  | link
deriving DecidableEq, Repr

/-- An entry of a directory. -/
structure Found where
  /-- The bytes of the name, which need not be text. -/
  name : List UInt8
  kind : Kind
  /-- Nanoseconds between the epoch and the last change. -/
  modified : Int
deriving DecidableEq, Repr

/-- What stands where the workspaces should be. -/
inductive WorkDir where
  | missing
  | notDirectory
  | entries (found : List Found)
deriving DecidableEq, Repr

namespace Sweep

/-- The nanoseconds of a second. -/
def second : Int := 1000000000

/-- The greatest number of seconds that a retention can have. -/
def maxSeconds : Nat := 0xFFFFFFFFFFFFFFFF

/-- The seconds of a retention, at most the greatest number there is. -/
def retentionSeconds (hours : Nat) : Nat := min (hours * 3600) maxSeconds

/-- The least number of seconds that a time can have. -/
def minSeconds : Int := -0x8000000000000000

/-- The time since which a workspace must have changed to be kept. -/
def cutoff (now : Int) (hours : Nat) : Int :=
  let t := now - retentionSeconds hours * second
  if minSeconds ≤ t / second then t else 0

/-- Whether a name is that of a workspace. -/
def isWorkspace (name : List UInt8) : Bool :=
  (Text.Utf8.text? name).any fun name => Run.workspaceStart.toList.isPrefixOf name.toList

/-- Whether an entry is a workspace that is old enough. -/
def expired (now : Int) (hours : Nat) (f : Found) : Bool :=
  isWorkspace f.name && f.kind == .directory && decide (f.modified ≤ cutoff now hours)

/-- Removes the expired workspaces: how many they were, and what is left. -/
def sweep (now : Int) (hours : Nat) (found : List Found) : Nat × List Found :=
  (found.countP (expired now hours), found.filter fun f => !expired now hours f)

/-- Sweeps a directory, if there is one. -/
def run (path : Path) (now : Int) (hours : Nat) : WorkDir → Except Error Nat × WorkDir
  | .missing => (.ok 0, .missing)
  | .notDirectory =>
    (.error (.cannotReadWorkDir path.text Refusal.notDirectory.text), .notDirectory)
  | .entries found => (.ok (sweep now hours found).1, .entries (sweep now hours found).2)

/-- The seconds between two sweeps: at least one. -/
def interval (seconds : Nat) : Nat := max seconds 1

/-- Sweeps at each of so many ticks, the first one at once, until no more than the wanted
number of entries is left. -/
def runUntil (now : Int) (hours seconds wanted : Nat) : Nat → List Found → List Found
  | 0, found => found
  | ticks + 1, found =>
    let left := (sweep now hours found).2
    if left.length ≤ wanted then left
    else runUntil (now + interval seconds * second) hours seconds wanted ticks left

end Sweep

end Rehearsal
