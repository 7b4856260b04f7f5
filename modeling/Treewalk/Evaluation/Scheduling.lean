import Treewalk.Evaluation.Basic

/-!
# `Treewalk.Evaluation.Scheduling`: work put off and events

Draining the tasks takes all of them out of the queue before it runs
the first, so a task that is put off meanwhile waits for the next
time. In the same way, signalling an event runs the handlers that were
registered when it began.
-/

set_option autoImplicit false

namespace Treewalk.Evaluator

open Eval

/-- Runs blocks one after the other. -/
def runBlocks (ev : Evaluator) : List (List Node) → Eval Unit
  | [] => pure ()
  | first :: rest => do
    runBlock ev first
    runBlocks ev rest

/-- Puts a block at the end of the tasks. -/
def enqueue (body : List Node) : Eval Unit :=
  modify fun m => { m with tasks := m.tasks.enqueue body }

/-- Takes all tasks out of the queue. -/
def takeTasks : Eval (List (List Node)) :=
  fun _ m =>
    let (tasks, queue) := m.tasks.takeAll
    some (.ok tasks, { m with tasks := queue })

/-- Registers a handler of an event. -/
def register (event : String) (h : Handler) : Eval Unit :=
  modify fun m => { m with registry := m.registry.register event h }

/-- The handlers of an event that are registered now. -/
def handlersOf (event : String) : Eval (List Handler) :=
  fun _ m => some (.ok (m.registry.handlers event), m)

/-- Puts a block off until the tasks are drained. -/
def paral (body : List Node) : Eval Value := do
  enqueue body
  pure .nil

/-- Drains the tasks, then runs a block. -/
def hold (ev : Evaluator) (body : List Node) : Eval Value := do
  let tasks ← takeTasks
  note (.hold tasks.length)
  runBlocks ev tasks
  runBlock ev body
  pure .nil

/-- Registers a block as a handler of the event it names. A block that
names none runs at once. -/
def listen (ev : Evaluator) (body : List Node) : Eval Value :=
  match eventName? body with
  | some event => do
    register event ⟨body, 1⟩
    pure .nil
  | none => do
    runBlock ev body
    pure .nil

/-- Signals the event that a block names, then runs the rest of the
block. A block that names none just runs. -/
def signal (ev : Evaluator) (body : List Node) : Eval Value :=
  match eventName? body with
  | none => do
    runBlock ev body
    pure .nil
  | some event => do
    let handlers ← handlersOf event
    note (.signal event handlers.length)
    runBlocks ev (handlers.map Handler.statements)
    runBlock ev body.tail
    pure .nil

end Treewalk.Evaluator
