import Rehearsal.Runner.Command
/-!
# Machines

What a command does depends on the machine that it is started on.

* `Machine.start`: what the process of a command leaves, or why there is no process.
* `Machine.reply`: the same as the reply to a job.
-/

namespace Rehearsal.Runner

/-- What the process of a command leaves in a tree, or why the machine cannot start it. -/
abbrev Machine := Command → FileTree → Except String Trace

namespace Machine

/-- Starts a command. One that cannot be written down or has no directory is not started. -/
def start (m : Machine) (c : Command) (t : FileTree) : Except String Trace :=
  match c.obstacle? t with
  | some reason => .error reason
  | none => m c t

/-- What becomes of a job, given when it is cancelled, if it is. -/
def reply (m : Machine) (c : Command) (t : FileTree) (cancelAfter : Option Nat) : Reply :=
  match m.start c t with
  | .ok trace => trace.reply cancelAfter
  | .error reason => .refused (.cannotSpawn c.program reason)

end Machine

end Rehearsal.Runner
