/-!
# Events

What the library has to say about its work, apart from its results. An event is data: it is collected
in the order in which things happen, and whoever runs the work decides what becomes of it.
-/

set_option autoImplicit false

namespace PackageLock

/-- How much an event matters. -/
inductive Severity where
  | debug
  | info
  | warn
  deriving DecidableEq, Repr

/-- Something worth telling. -/
structure Event where
  severity : Severity
  message : String
  deriving DecidableEq, Repr

/-- An event for those who look into the work itself. -/
def Event.debug (message : String) : Event := ⟨.debug, message⟩

/-- An event that tells of a change. -/
def Event.info (message : String) : Event := ⟨.info, message⟩

/-- An event that tells of something doubtful. -/
def Event.warn (message : String) : Event := ⟨.warn, message⟩

/-- Whether an event is shown under a filter: the name of the least severity to be shown. Any other
filter lets warnings through. -/
def Event.passes (filter : String) (event : Event) : Bool :=
  if filter = "off" || filter = "error" then false
  else if filter = "debug" || filter = "trace" then true
  else if filter = "info" then event.severity != .debug
  else event.severity == .warn

/-- A result with the events on the way to it. -/
structure Logged (α : Type) where
  value : α
  events : List Event
  deriving Repr

namespace Logged

variable {α β : Type}

/-- A result without events. -/
def silent (a : α) : Logged α := ⟨a, []⟩

/-- The result of a function of the value; the events stay. -/
def map (f : α → β) (l : Logged α) : Logged β := ⟨f l.value, l.events⟩

/-- The same result after some more events. -/
def after (events : List Event) (l : Logged α) : Logged α := ⟨l.value, events ++ l.events⟩

/-- The result of the next piece of work, with the events of both in order. -/
def andThen (l : Logged α) (f : α → Logged β) : Logged β := (f l.value).after l.events

end Logged

end PackageLock
