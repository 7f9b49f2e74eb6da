import Workflow.Event.Basic

/-!
# Event bus

A bus keeps every event that was emitted and, for each subscriber, how many of them it has behind it.
Only the latest events are held, as many as the capacity: a subscriber that is further behind is told
once how many it lost and goes on with the oldest one held.
-/

namespace Workflow

structure EventBus where
  /-- How many events are held, a power of two. -/
  capacity : Nat
  /-- All events, the latest first. -/
  emitted : List Event
  /-- The subscribers by name, with the number of events they have behind them. -/
  subscribers : List (String × Nat)
deriving Repr

/-- What a subscriber receives. -/
inductive Delivery
  | event (event : Event)
  | lagged (lost : Nat)
deriving DecidableEq, Repr

namespace EventBus

/-- A bus without events; a capacity of zero counts as one. -/
def new (capacity : Nat) : EventBus :=
  ⟨(max capacity 1).nextPowerOfTwo, [], []⟩

def log (bus : EventBus) : List Event :=
  bus.emitted.reverse

def emit (bus : EventBus) (e : Event) : EventBus :=
  { bus with emitted := e :: bus.emitted }

def drop (bus : EventBus) (name : String) : EventBus :=
  { bus with subscribers := bus.subscribers.filter fun s => s.1 != name }

/-- Adds a subscriber for the events to come, in place of an earlier one of the same name. -/
def subscribe (bus : EventBus) (name : String) : EventBus :=
  { bus with subscribers := (name, bus.emitted.length) :: (bus.drop name).subscribers }

def subscriberCount (bus : EventBus) : Nat :=
  bus.subscribers.length

/-- How many events a subscriber has behind it; one that is unknown has all. -/
def position (bus : EventBus) (name : String) : Nat :=
  ((bus.subscribers.find? fun s => s.1 == name).map (·.2)).getD bus.emitted.length

def moveTo (bus : EventBus) (name : String) (position : Nat) : EventBus :=
  { bus with
    subscribers := bus.subscribers.map fun s => if s.1 = name then (name, position) else s }

def receive? (bus : EventBus) (name : String) : Option (Delivery × EventBus) :=
  let position := bus.position name
  let unread := bus.emitted.length - position
  if bus.capacity < unread then
    some (.lagged (unread - bus.capacity), bus.moveTo name (bus.emitted.length - bus.capacity))
  else
    match unread with
    | 0 => none
    | n + 1 => bus.emitted[n]?.map fun e => (.event e, bus.moveTo name (position + 1))

def drain (bus : EventBus) (name : String) : List Delivery × EventBus :=
  let unread := bus.emitted.length - bus.position name
  let held := (bus.emitted.take (min unread bus.capacity)).reverse.map Delivery.event
  let lost := if bus.capacity < unread then [.lagged (unread - bus.capacity)] else []
  (lost ++ held, bus.moveTo name bus.emitted.length)

@[simp] theorem log_emit (bus : EventBus) (e : Event) : (bus.emit e).log = bus.log ++ [e] := by
  simp [log, emit]

end EventBus

/-- A lost stretch is told by its length, an event as itself. -/
def Delivery.toJson : Delivery → Json
  | event e => e.toJson
  | lagged n => .object [("lagged", .int n)]

end Workflow
