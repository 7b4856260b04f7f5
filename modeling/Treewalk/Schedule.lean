import Treewalk.Program.Node

/-!
# `Treewalk.Schedule`: work for later

Blocks can be put off in two ways. A task waits in a queue until the
queue is drained. A handler waits for an event and runs each time the
event is signalled; handlers of one event run in the order in which
they were registered.
-/

set_option autoImplicit false

namespace Treewalk

/-- Blocks that wait to be run, first come first. -/
structure TaskQueue where
  pending : List (List Node)

namespace TaskQueue

/-- The queue in which nothing waits. -/
def empty : TaskQueue := ⟨[]⟩

/-- The queue with one more block at its end. -/
def enqueue (q : TaskQueue) (body : List Node) : TaskQueue :=
  ⟨q.pending ++ [body]⟩

/-- All waiting blocks, and the queue without them. -/
def takeAll (q : TaskQueue) : List (List Node) × TaskQueue :=
  (q.pending, empty)

/-- The number of waiting blocks. -/
def size (q : TaskQueue) : Nat :=
  q.pending.length

end TaskQueue

/-- A block that runs at an event, from one of its statements on. -/
structure Handler where
  body : List Node
  start : Nat

namespace Handler

/-- The statements that the handler runs. -/
def statements (h : Handler) : List Node :=
  h.body.drop h.start

end Handler

/-- All registrations so far, in order. -/
structure Registry where
  entries : List (String × Handler)

namespace Registry

/-- The registry without a handler. -/
def empty : Registry := ⟨[]⟩

/-- The registry with one more handler. -/
def register (r : Registry) (event : String) (h : Handler) : Registry :=
  ⟨r.entries ++ [(event, h)]⟩

/-- The handlers of an event, in order of registration. -/
def handlers (r : Registry) (event : String) : List Handler :=
  (r.entries.filter fun (e, _) => e = event).map Prod.snd

/-- A new handler comes after those of its event and changes nothing
for other events. -/
theorem handlers_register (r : Registry) (event e : String) (h : Handler) :
    (r.register event h).handlers e = r.handlers e ++ if event = e then [h] else [] := by
  by_cases he : event = e <;> simp [register, handlers, he]

end Registry

end Treewalk
