import Treewalk.Interpreter

/-!
# `Treewalk.Session.Basic`: an interpreter in the hands of a host

A session is one interpreter and what its host holds of it. A handle
is a named scope that stays alive until the handle is dropped. A watch
is a named scope that the host only looks at. The host can also make
objects of its own, which live as long as the session.
-/

set_option autoImplicit false

namespace Treewalk

/-- An object that a host asks for by its kind and name. Hosts tell
objects of one kind and name apart by a number. -/
structure Request where
  kind : Kind
  name : String
  label : Nat
deriving DecidableEq, Repr

/-- One interpreter and what the host holds of it. -/
structure Session where
  settings : Settings
  machine : Machine
  globals : ScopeId
  handles : List (String × ScopeId)
  watches : List (String × ScopeId)
  made : List (Request × Value)

namespace Session

/-- The name of the handle on the global scope. -/
def globalsName : String := "globals"

/-- A new session. Its first scope is the global one, with the number
`first`; the host has used the numbers below for the specs of its
programs. -/
def start (settings : Settings) (out err : Sink) (input : Source) (first : Nat) : Session :=
  let (globals, store) := (Store.empty first).add (Scope.top .global)
  { settings
    machine := .start store out err input
    globals
    handles := [(globalsName, globals)]
    watches := []
    made := [] }

/-- What the host keeps alive. -/
def held (s : Session) : List Ref :=
  .scope s.globals :: s.handles.map (fun (_, id) => .scope id) ++
    s.made.flatMap fun (_, v) => v.refs

/-- The session after references are let go that the host no longer
holds. -/
def release (s : Session) (refs : List Ref) : Session :=
  { s with machine := s.machine.release s.held refs }

/-- The session with a store in the place of its own. -/
def setStore (s : Session) (store : Store) : Session :=
  { s with machine := { s.machine with store } }

/-- The scope behind a handle. -/
def scopeOf? (s : Session) (handle : String) : Option ScopeId :=
  s.handles.lookup handle

/-- The session without a handle. -/
def drop (s : Session) (handle : String) : Session :=
  match s.scopeOf? handle with
  | none => s
  | some id =>
    { s with handles := s.handles.filter fun (name, _) => name ≠ handle }.release [.scope id]

/-- The session with a handle on a scope. A handle of that name is
dropped. -/
def hold (s : Session) (handle : String) (id : ScopeId) : Session :=
  let old := (s.scopeOf? handle).toList.map Ref.scope
  let others := s.handles.filter fun (name, _) => name ≠ handle
  { s with handles := (handle, id) :: others }.release old

/-- The session with a watch on a scope. -/
def watch (s : Session) (name : String) (id : ScopeId) : Session :=
  { s with watches := (name, id) :: s.watches.filter fun (n, _) => n ≠ name }

/-- The session with a new scope under a handle. -/
def addScope (s : Session) (handle : String) (kind : ScopeKind) : Session :=
  let (id, store) := s.machine.store.add (Scope.top kind)
  (s.setStore store).hold handle id

/-- The session with a new scope, made in another one, under a
handle. -/
def addChild (s : Session) (handle : String) (above : ScopeId) (kind : ScopeKind) : Session :=
  let (id, store) := s.machine.store.child above kind
  (s.setStore store).hold handle id

/-- Makes the object that is asked for, as empty as its kind allows.
There are none of the other kinds. -/
def build (request : Request) (store : Store) : Value × Store :=
  let name := request.name
  match request.kind with
  | .spec =>
    (.spec
      { number := store.next
        name := if name.isEmpty then none else some name
        params := []
        body := []
        exposed := false
        shared := false
        doc := none },
      store.advance)
  | .blueprint =>
    let (scope, store) := store.add (Scope.top .blueprint)
    (.blueprint ⟨name, scope, none⟩, store)
  | .object =>
    let (scope, store) := store.add (Scope.top .blueprint)
    let (i, store) := store.spawn ⟨name, scope, none⟩
    (.object i, store)
  | .toolkit =>
    let (exports, store) := store.add (Scope.top .exports)
    let (scope, store) := store.add (Scope.top (.toolkit exports))
    (.toolkit ⟨name, scope, exports⟩, store)
  | .bridge =>
    let (scope, store) := store.add (Scope.top .bridge)
    (.bridge ⟨name, scope⟩, store)
  | _ => (.nil, store)

/-- The object that the host asks for. The same request always gets
the same object. -/
def obtain (s : Session) (request : Request) : Value × Session :=
  match s.made.lookup request with
  | some v => (v, s)
  | none =>
    let (v, store) := build request s.machine.store
    (v, { s.setStore store with made := (request, v) :: s.made })

/-- What was written and logged since the last time, and the session
with that carried away. -/
def collect (s : Session) : (String × String × List LogEntry) × Session :=
  let (out, outSink) := s.machine.out.collect
  let (err, errSink) := s.machine.err.collect
  let machine := { s.machine with out := outSink, err := errSink, log := [] }
  ((out, err, s.machine.log.reverse), { s with machine })

end Session

end Treewalk
