import TableLineage.Format.JsonValue

/-! Tells subscribers about saved runs. Each subscriber has a channel of its own; when the
queue of the channel is full, it misses what comes. -/
namespace TableLineage

structure SavedNotice where
  runId : String
  sourceName : String
  records : Int
  deriving DecidableEq, Repr

def SavedNotice.toJson (e : SavedNotice) : JsonValue :=
  .obj [("runId", .str e.runId), ("sourceName", .str e.sourceName), ("records", .int e.records)]

structure Channel where
  /-- What has been sent and not yet received, the oldest first. -/
  queue : List SavedNotice
  isClosed : Bool
  deriving DecidableEq, Repr

namespace Channel

def room : Nat := 8

def offer (e : SavedNotice) (c : Channel) : Channel :=
  if c.queue.length < room then { c with queue := c.queue ++ [e] } else c

end Channel

/-- Channels keep their numbers after their subscribers have gone. -/
structure Notifier where
  channels : List Channel
  listeners : List Nat
  deriving DecidableEq, Repr

namespace Notifier

def empty : Notifier := ⟨[], []⟩

/-- Adds a subscriber; the number of its channel is how many there were before. -/
def subscribe (n : Notifier) : Notifier := ⟨n.channels ++ [⟨[], false⟩], n.listeners ++ [n.channels.length]⟩

/-- Sends no more to a channel, and closes it. What is in its queue can still be received. -/
def unsubscribe (n : Notifier) (k : Nat) : Notifier :=
  ⟨n.channels.modify k fun c => { c with isClosed := true }, n.listeners.filter (· ≠ k)⟩

def send (e : SavedNotice) (n : Notifier) (k : Nat) : Notifier :=
  { n with channels := n.channels.modify k (Channel.offer e) }

def broadcast (n : Notifier) (e : SavedNotice) : Notifier := n.listeners.foldl (send e) n

def receive (n : Notifier) (k : Nat) : Option SavedNotice × Notifier :=
  ((n.channels[k]?).bind fun c => c.queue.head?,
   { n with channels := n.channels.modify k fun c => { c with queue := c.queue.tail } })

def drain (n : Notifier) (k : Nat) : List SavedNotice × Notifier :=
  (((n.channels[k]?).map (·.queue)).getD [],
   { n with channels := n.channels.modify k fun c => { c with queue := [] } })

def isClosed (n : Notifier) (k : Nat) : Bool := ((n.channels[k]?).map (·.isClosed)).getD false

def size (n : Notifier) : Nat := n.listeners.length

end Notifier
end TableLineage
