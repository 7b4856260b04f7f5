import Treewalk.LogEntry
import Treewalk.Schedule
import Treewalk.Store.Chain
import Treewalk.Store.Release
import Treewalk.Stream

/-!
# `Treewalk.Machine`: the state that a program runs on

The machine is all that one evaluation leaves for the next: scopes and
instances, work put off, the streams, and the counters of running
calls and modules. Settings stay as the host chose them.
-/

set_option autoImplicit false

namespace Treewalk

/-- Where modules come from: the statements behind a path, or the
reasons why there are none. -/
abbrev ModuleSource := String → Except (List String) (List Node)

/-- What the host decides for a run. -/
structure Settings where
  maxDepth : Nat
  trace : Bool
  modules : Option ModuleSource

/-- The number of calls that may run inside each other unless the host
says otherwise. -/
def defaultMaxDepth : Nat := 1000

/-- The settings of a host that decides nothing. -/
def Settings.standard : Settings where
  maxDepth := defaultMaxDepth
  trace := false
  modules := none

/-- The state of the interpreter. The log has its newest entry
first. -/
structure Machine where
  store : Store
  tasks : TaskQueue
  registry : Registry
  out : Sink
  err : Sink
  input : Source
  interrupted : Bool
  depth : Nat
  bringing : List String
  log : List LogEntry

namespace Machine

/-- A machine that has run nothing yet. -/
def start (store : Store) (out err : Sink) (input : Source) : Machine where
  store
  tasks := .empty
  registry := .empty
  out
  err
  input
  interrupted := false
  depth := 0
  bringing := []
  log := []

/-- A machine with one scope, the number 0, whose sinks take all and
whose input is at its end. -/
def single (scope : Scope) : Machine :=
  .start ((Store.empty 0).add scope).2 (.limited none none) (.limited none none) ⟨[]⟩

/-- The machine with an entry added to its log. -/
def note (m : Machine) (e : LogEntry) : Machine :=
  { m with log := e :: m.log }

/-- The machine after references are let go while others are held. -/
def release (m : Machine) (held refs : List Ref) : Machine :=
  { m with store := m.store.release held refs }

end Machine

end Treewalk
