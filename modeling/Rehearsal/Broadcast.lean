/-!
# Broadcast

Messages go to every receiver that is listening at the time. Only so many are kept: a receiver
that is too slow loses the oldest ones and is told how many.

* `Broadcast.send`: nothing is kept of a message that nobody listens to.
* `Broadcast.receive`: **every message a receiver gets, in the order they were sent**, with a
  gap exactly where `lagged` says so.
-/

namespace Rehearsal

/-- What has been sent, and how far each receiver is. -/
structure Broadcast (α : Type) where
  /-- How many messages are kept for slow receivers. -/
  capacity : Nat
  /-- Every message that was sent to somebody, the first one first. -/
  sent : List α
  /-- For each receiver, how many messages are behind it; none once it has gone. -/
  positions : List (Option Nat)
deriving DecidableEq

/-- What a receiver finds. -/
inductive Received (α : Type) where
  | message (content : α)
  /-- So many messages were lost. -/
  | lagged (count : Nat)
  | empty
  | gone
deriving DecidableEq

namespace Broadcast

variable {α : Type}

/-- Messages that are kept when nothing else is said. -/
def defaultCapacity : Nat := 1000

/-- Nobody listens. At least as many messages are kept as were asked for: their number is a
power of two. -/
def ofCapacity (capacity : Nat) : Broadcast α := ⟨capacity.nextPowerOfTwo, [], []⟩

/-- How many receivers listen. -/
def listeners (b : Broadcast α) : Nat := b.positions.countP Option.isSome

/-- A new receiver, of all that is sent from now on; its number is that of the receivers
before it. -/
def subscribe (b : Broadcast α) : Broadcast α :=
  { b with positions := b.positions ++ [some b.sent.length] }

/-- A receiver stops listening. -/
def drop (b : Broadcast α) (receiver : Nat) : Broadcast α :=
  { b with positions := b.positions.set receiver none }

/-- Sends a message: the number of receivers that it reaches is `listeners`. -/
def send (b : Broadcast α) (message : α) : Broadcast α :=
  if b.listeners = 0 then b else { b with sent := b.sent ++ [message] }

/-- The oldest message that is still kept. -/
def oldest (b : Broadcast α) : Nat := b.sent.length - b.capacity

/-- A receiver moves on. -/
def moveTo (b : Broadcast α) (receiver position : Nat) : Broadcast α :=
  { b with positions := b.positions.set receiver (some position) }

/-- What a receiver finds next. -/
def receive (b : Broadcast α) (receiver : Nat) : Broadcast α × Received α :=
  match b.positions[receiver]? with
  | none => (b, .gone)
  | some none => (b, .gone)
  | some (some position) =>
    if position < b.oldest then (b.moveTo receiver b.oldest, .lagged (b.oldest - position))
    else match b.sent[position]? with
      | none => (b, .empty)
      | some message => (b.moveTo receiver (position + 1), .message message)

end Broadcast

end Rehearsal
