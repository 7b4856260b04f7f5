/-!
# `Treewalk.Program.Node`: programs as trees

A program is a tree of nodes. The larger constructs are records over
the type of their sub-nodes, so that a value can carry the declaration
it came from without a mention of the tree around it.

Operators, target types and names are plain text here. Whether they
mean anything is decided when the node is evaluated, and an operator
without a meaning is a fault of that node alone.
-/

set_option autoImplicit false

namespace Treewalk

/-- A spec, the language's function: parameters and a body, perhaps
with a name. Each declaration in a program has a number of its own,
by which two specs of equal text are told apart. -/
structure Spec (Node : Type) where
  number : Nat
  name : Option String
  params : List String
  body : List Node
  exposed : Bool
  shared : Bool
  doc : Option String

namespace Spec

/-- What a spec without a name is called. -/
def anonymous : String := "<anonymous>"

/-- What the spec is called in messages. -/
def displayName {Node : Type} (s : Spec Node) : String :=
  s.name.getD anonymous

/-- Whether the spec is offered to users of the toolkit around it. -/
def isExported {Node : Type} (s : Spec Node) : Bool :=
  s.exposed || s.shared

end Spec

/-- The body that initialises the instances of a blueprint. Its first
parameter is the instance. -/
structure Constructor (Node : Type) where
  params : List String
  body : List Node

/-- The declaration of a blueprint, the language's class. -/
structure BlueprintDecl (Node : Type) where
  name : String
  attributes : List Node
  methods : List Node
  constructor : Option (Constructor Node)
  doc : Option String

/-- A condition and the statements it guards. -/
structure Branch (Node : Type) where
  condition : Node
  body : List Node

/-- A piece of an interpolated text. -/
inductive Piece (Node : Type) where
  | literal (text : String)
  | expression (x : Node)

/-- The parts of an attempt. `trap` runs when the body raises an
error; `peek` and `errorVar` say how the trap sees it. -/
structure Attempt (Node : Type) where
  body : List Node
  trap : List Node
  peek : Bool
  errorVar : Option String
  conclude : Option (List Node)

/-- A node of a program. -/
inductive Node where
  | program (body : List Node)
  -- Literals
  | number (x : Float)
  | text (s : String)
  | bool (b : Bool)
  | nil
  | interpolated (pieces : List (Piece Node))
  | pack (items : List Node)
  | typeName (name : String)
  | docstring (s : String)
  -- Operators
  | binary (op : String) (left right : Node)
  | unary (op : String) (operand : Node)
  | kind (x : Node)
  | convert (source : Node) (target : String)
  -- Names
  | var (name : String)
  | assign (target value : Node)
  | firm (name : String) (value : Node)
  | nick (name nickname : String)
  -- Statements
  | print (items : List Node)
  | statement (x : Node)
  | embed (body : List Node)
  | ask (prompt : List Node)
  | wait (x : Option Node)
  -- Specs
  | spec (decl : Spec Node)
  | back (value : Option Node)
  | call (callee : Node) (args : List Node)
  | methodCall (object : Node) (method : String) (args : List Node)
  -- Branches and loops
  | check (first : Branch Node) (alters : List (Branch Node)) (altern : Option (List Node))
  | traverse (var : String) (start stop : Node) (step : Option Node) (body : List Node)
  | each (var : String) (range : Node) (body : List Node)
  | untilTrue (condition : Node) (body : List Node)
  | halt
  | proceed
  -- Objects
  | blueprint (decl : BlueprintDecl Node)
  | spawn (blueprint : Node) (args : List Node)
  | adopt (child parent : String)
  | attributeOf (object : Node) (name : String)
  -- Modules
  | toolkit (name : String) (body : List Node)
  | plug (toolkit : String) (path : Option String)
  | expose (name : String)
  | bridge (name : String) (body : List Node)
  | inlet (body : List Node)
  | link (greeter : String) (implementation : Node)
  | bring (modules : List String) (path : String)
  -- Errors
  | attempt (parts : Attempt Node)
  | trigger (name : String) (message : Option String)
  -- Scheduling
  | paral (body : List Node)
  | hold (body : List Node)
  | signal (body : List Node)
  | listen (body : List Node)

namespace Node

/-- What a node of this form is called in messages. -/
def kindName : Node → String
  | program .. => "program"
  | number .. => "number"
  | text .. => "string"
  | bool .. => "bool"
  | nil => "nil"
  | interpolated .. => "interpolated string"
  | pack .. => "pack"
  | typeName .. => "type name"
  | docstring .. => "docstring"
  | binary .. => "binary operation"
  | unary .. => "unary operation"
  | kind .. => "kind"
  | convert .. => "convert"
  | var .. => "variable"
  | assign .. => "assignment"
  | firm .. => "constant declaration"
  | nick .. => "nick"
  | print .. => "show"
  | statement .. => "expression statement"
  | embed .. => "embed"
  | ask .. => "ask"
  | wait .. => "wait"
  | spec .. => "spec declaration"
  | back .. => "back"
  | call .. => "call"
  | methodCall .. => "method call"
  | check .. => "check"
  | traverse .. => "traverse"
  | each .. => "each"
  | untilTrue .. => "until"
  | halt => "halt"
  | proceed => "proceed"
  | blueprint .. => "blueprint"
  | spawn .. => "spawn"
  | adopt .. => "adopt"
  | attributeOf .. => "attribute access"
  | toolkit .. => "toolkit"
  | plug .. => "plug"
  | expose .. => "expose"
  | bridge .. => "bridge"
  | inlet .. => "inlet"
  | link .. => "link"
  | bring .. => "bring"
  | attempt .. => "attempt"
  | trigger .. => "trigger"
  | paral .. => "paral"
  | hold .. => "hold"
  | signal .. => "signal"
  | listen .. => "listen"

/-- The text that a node states literally, seen through statements
that consist of it alone. -/
def literalText? : Node → Option String
  | text s => some s
  | statement x => x.literalText?
  | _ => none

end Node

/-- The event that a block names, if its first statement is a literal
text. -/
def eventName? : List Node → Option String
  | [] => none
  | first :: _ => first.literalText?

end Treewalk
