import Treewalk.Session.Basic

/-!
# `Treewalk.Session.Inspection`: what a host can see

Scopes are shown by their kind, their bindings and the handles on
them. Of a watched scope the host can also see whether it is gone.
-/

set_option autoImplicit false

namespace Treewalk

/-- The text of a scope for diagnosis: its kind and the names it
binds. -/
def Scope.debug (s : Scope) : String :=
  "Environment \x7b kind: " ++ s.kind.name ++ ", names: [" ++
    ", ".intercalate (s.names.map Text.quoted) ++ "] \x7d"

/-- The bindings of a scope by name, pack item and constancy. -/
def Store.summary (s : Store) (id : ScopeId) : List (String × String × Bool) :=
  ((s.scope? id).elim [] Scope.bindings).map fun (name, b) => (name, b.value.packItem, b.constant)

/-- Which scope of an object is meant. -/
inductive Part where
  | main
  | blueprint
  | exports
deriving DecidableEq, Repr

/-- The scope of an object that is meant. -/
def Value.partScope? : Value → Part → Option ScopeId
  | .object i, .blueprint => some i.blueprint.scope
  | .object i, _ => some i.fields
  | .blueprint b, _ => some b.scope
  | .toolkit t, .exports => some t.exports
  | .toolkit t, _ => some t.scope
  | .bridge b, _ => some b.scope
  | _, _ => none

namespace Session

/-- The scope with a number, if it is alive. -/
def scope? (s : Session) (id : ScopeId) : Option Scope :=
  s.machine.store.scope? id

/-- The handles on a scope, sorted by name. -/
def handlesOn (s : Session) (id : ScopeId) : List String :=
  ((s.handles.filter fun (_, i) => i = id).map Prod.fst).mergeSort fun a b => !(b < a)

/-- The bindings of a scope, in order. -/
def bindings (s : Session) (id : ScopeId) : Bindings :=
  (s.scope? id).elim [] Scope.bindings

/-- The value of a name as seen from a scope. -/
def lookup? (s : Session) (id : ScopeId) (name : String) : Option Value :=
  s.machine.store.lookup? id name

/-- The value of a name in one scope. -/
def getLocal? (s : Session) (id : ScopeId) (name : String) : Option Value :=
  s.machine.store.getLocal? id name

/-- The scope that encloses a scope. -/
def parent? (s : Session) (id : ScopeId) : Option ScopeId :=
  (s.scope? id).bind s.machine.store.enclosing?

/-- The exports of the toolkit around a scope. -/
def exports? (s : Session) (id : ScopeId) : Option ScopeId :=
  s.machine.store.nearestExports? id

/-- The scope of the object that a name stands for, or the scope
itself when there is no name. -/
def partOf? (s : Session) (id : ScopeId) (name : Option String) (part : Part) : Option ScopeId :=
  match name with
  | none => some id
  | some name => (s.lookup? id name).bind fun v => v.partScope? part

/-- Whether a watched scope is gone. -/
def isReleased (s : Session) (id : ScopeId) : Bool :=
  !s.machine.store.hasScope id

/-- The text of a watched scope for diagnosis. -/
def watchDebug (s : Session) (id : ScopeId) : String :=
  "WeakEnvironment(released: " ++ (if s.isReleased id then "true" else "false") ++ ")"

end Session

end Treewalk
