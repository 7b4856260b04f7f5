import Treewalk.Program.Node

/-!
# `Treewalk.Value.Basic`: the values of the language

Numbers, texts, truth values, ranges and `Nil` are plain data. A spec
is its declaration. The four kinds of objects name the scopes that
hold their parts; the scopes themselves live in the store.

An object value also carries the name it was declared under, so its
text needs no store. Two object values are the same object if they
agree on the scopes they name, and two specs are the same if they come
from one declaration.

`Value.refs` lists what a value keeps alive.
-/

set_option autoImplicit false

namespace Treewalk

/-- The number of a scope. Scopes and instances are numbered together
in the order in which they are made. -/
abbrev ScopeId := Nat

/-- The number of an instance. -/
abbrev InstanceId := Nat

/-- What a scope, a value or a running construct can keep alive. -/
inductive Ref where
  | scope (id : ScopeId)
  | instance (id : InstanceId)
deriving DecidableEq, Repr

/-- A blueprint: its scope holds the attributes and methods it
declares. -/
structure Blueprint where
  name : String
  scope : ScopeId
  constructor : Option (Constructor Node)

/-- An instance of a blueprint, with a scope for its own fields. -/
structure Instance where
  id : InstanceId
  blueprint : Blueprint
  fields : ScopeId

namespace Instance

/-- What an instance keeps alive: its fields and its blueprint. -/
def refs (i : Instance) : List Ref :=
  [.scope i.fields, .scope i.blueprint.scope]

end Instance

/-- A toolkit: a scope for its body and one for what it exports. -/
structure Toolkit where
  name : String
  scope : ScopeId
  exports : ScopeId

/-- A bridge: a named scope. -/
structure Bridge where
  name : String
  scope : ScopeId

/-- A value. -/
inductive Value where
  | nil
  | bool (b : Bool)
  | number (x : Float)
  | text (s : String)
  | range (start stop : Float)
  | spec (decl : Spec Node)
  | blueprint (b : Blueprint)
  | object (i : Instance)
  | toolkit (t : Toolkit)
  | bridge (b : Bridge)

instance : Inhabited Value := ⟨.nil⟩

/-- The kinds of values that a program can name. -/
inductive Kind where
  | nil
  | bool
  | number
  | text
  | range
  | spec
  | blueprint
  | object
  | toolkit
  | bridge
deriving DecidableEq, Repr

namespace Kind

/-- The name of a kind in programs and messages. -/
def name : Kind → String
  | nil => "Nil"
  | bool => "Bool"
  | number => "Num"
  | text => "Text"
  | range => "Range"
  | spec => "Spec"
  | blueprint => "Blueprint"
  | object => "Instance"
  | toolkit => "Toolkit"
  | bridge => "Bridge"

/-- Every kind. -/
def all : List Kind :=
  [nil, bool, number, text, range, spec, blueprint, object, toolkit, bridge]

/-- The kind with the given name. -/
def ofName? (s : String) : Option Kind :=
  all.find? fun k => k.name = s

theorem mem_all (k : Kind) : k ∈ all := by
  cases k <;> decide

theorem ofName?_name (k : Kind) : ofName? k.name = some k := by
  cases k <;> decide

end Kind

namespace Value

/-- The kind of a value. -/
def kind : Value → Kind
  | nil => .nil
  | bool _ => .bool
  | number _ => .number
  | text _ => .text
  | range .. => .range
  | spec _ => .spec
  | blueprint _ => .blueprint
  | object _ => .object
  | toolkit _ => .toolkit
  | bridge _ => .bridge

/-- Whether a value is a spec or an object. -/
def isReference (v : Value) : Bool :=
  match v.kind with
  | .spec | .blueprint | .object | .toolkit | .bridge => true
  | _ => false

/-- Whether a value counts as true in a condition. Only `Nil`, the
false truth value, the zeros and the empty text do not. -/
def truth : Value → Bool
  | nil => false
  | bool b => b
  | number x => x != 0
  | text s => !s.isEmpty
  | _ => true

/-- What a value keeps alive. -/
def refs : Value → List Ref
  | blueprint b => [.scope b.scope]
  | object i => [.instance i.id]
  | toolkit t => [.scope t.scope, .scope t.exports]
  | bridge b => [.scope b.scope]
  | _ => []

/-- Typed equality. Values of two kinds are never equal. Data is
compared by content, a spec by its declaration, and an object by
identity. -/
def same : Value → Value → Bool
  | nil, nil => true
  | bool a, bool b => a == b
  | number x, number y => x == y
  | text s, text t => s == t
  | range a b, range a' b' => a == a' && b == b'
  | spec s, spec t => s.number == t.number && s.name == t.name
  | blueprint a, blueprint b => a.scope == b.scope && a.name == b.name
  | object a, object b => a.id == b.id && a.blueprint.name == b.blueprint.name
  | toolkit a, toolkit b => a.scope == b.scope && a.name == b.name
  | bridge a, bridge b => a.scope == b.scope && a.name == b.name
  | _, _ => false

instance : BEq Value := ⟨same⟩

/-- The number that a value is, if it is one. -/
def number? : Value → Option Float
  | number x => some x
  | _ => none

/-- The truth value that a value is, if it is one. -/
def bool? : Value → Option Bool
  | bool b => some b
  | _ => none

/-- The text that a value is, if it is one. -/
def text? : Value → Option String
  | text s => some s
  | _ => none

/-- The instance that a value is, if it is one. -/
def instance? : Value → Option Instance
  | object i => some i
  | _ => none

/-- The blueprint that a value is, if it is one. -/
def blueprint? : Value → Option Blueprint
  | blueprint b => some b
  | _ => none

/-- The toolkit that a value is, if it is one. -/
def toolkit? : Value → Option Toolkit
  | toolkit t => some t
  | _ => none

end Value

end Treewalk
