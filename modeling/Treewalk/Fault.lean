import Treewalk.Value.Basic

/-!
# `Treewalk.Fault`: what can go wrong at a node

A fault is a mistake of the program that the interpreter can work
around: it is reported, and the node that met it yields `Nil`. Each
constructor names a cause; `Fault.message` holds all the wording.
-/

set_option autoImplicit false

namespace Treewalk

/-- What an undefined name was looked up as. -/
inductive Subject where
  | var
  | spec
  | method
  | exported
  | attr
  | blueprint
  | toolkit
  | identifier
  | brought
deriving DecidableEq, Repr

namespace Subject

/-- The word for a subject in messages. -/
def word : Subject → String
  | var => "variable"
  | spec => "spec"
  | method => "method"
  | exported => "export"
  | attr => "attribute"
  | blueprint => "blueprint"
  | toolkit => "toolkit"
  | identifier => "identifier"
  | brought => "module"

end Subject

/-- The bound of a counted loop that a value was meant for. -/
inductive LoopBound where
  | start
  | stop
  | step
deriving DecidableEq, Repr

namespace LoopBound

/-- The words for a bound in messages. -/
def words : LoopBound → String
  | start => "traverse start"
  | stop => "traverse end"
  | step => "traverse step"

end LoopBound

/-- A value of one kind where another is needed, or a construct where
it has no place. -/
inductive Mismatch where
  /-- A call of something other than a spec. -/
  | notCallable (found : Kind)
  /-- A method name that the instance answers with something other
  than a spec. -/
  | notMethod (name : String) (found : Kind)
  /-- An export that is called but is no spec. -/
  | notExportedSpec (toolkit name : String) (found : Kind)
  /-- A method call on a value without methods. -/
  | noMethods (name : String) (found : Kind)
  /-- Operands of an operator on numbers. -/
  | operands (op : String) (left right : Kind)
  /-- The right side of a kind test. -/
  | notKindName (found : Kind)
  | notNegatable (found : Kind)
  | loopBound (bound : LoopBound) (found : Kind)
  | loopStep
  | notRange (found : Kind)
  /-- An assignment to a node that is no place. -/
  | notAssignable (nodeKind : String)
  | noAttributes (name : String) (found : Kind)
  | notReadable (name : String) (found : Kind)
  | notSpawnable (found : Kind)
  | notBlueprint (name : String) (found : Kind)
  | notPluggable (name : String) (found : Kind)
  | exposeOutsideToolkit
  /-- A mismatch stated in the words of the host. -/
  | stated (message : String)
deriving DecidableEq, Repr

namespace Mismatch

/-- What is said about a mismatch. -/
def message : Mismatch → String
  | notCallable found => s!"{found.name} is not callable"
  | notMethod name found => s!"`{name}` is a {found.name}, not a method"
  | notExportedSpec toolkit name found =>
    s!"`{toolkit}.{name}` is a {found.name}, not a spec"
  | noMethods name found => s!"cannot call method `{name}` on {found.name}"
  | operands op left right =>
    s!"operator `{op}` expects Num operands, got {left.name} and {right.name}"
  | notKindName found => s!"`is` expects a type name, got {found.name}"
  | notNegatable found => s!"cannot negate {found.name}"
  | loopBound bound found => s!"{bound.words} must be Num, got {found.name}"
  | loopStep => "loop step must be a non-zero Num"
  | notRange found => s!"each expects a Range, got {found.name}"
  | notAssignable nodeKind => s!"cannot assign to {nodeKind}"
  | noAttributes name found => s!"cannot set attribute `{name}` on {found.name}"
  | notReadable name found => s!"cannot read attribute `{name}` of {found.name}"
  | notSpawnable found => s!"cannot spawn from {found.name}"
  | notBlueprint name found => s!"`{name}` is a {found.name}, not a Blueprint"
  | notPluggable name found => s!"cannot plug {found.name} `{name}`"
  | exposeOutsideToolkit => "expose can only be used inside a toolkit"
  | stated message => message

end Mismatch

/-- Why a module could not be brought. -/
inductive LoadProblem where
  /-- The module is being brought already. -/
  | cycle
  /-- The host has no source of modules. -/
  | noSource
  /-- The source of modules refused; the reasons go from the outermost
  to the root. -/
  | refused (reasons : List String)
deriving DecidableEq, Repr

namespace LoadProblem

/-- What is said about a load problem. -/
def message : LoadProblem → String
  | cycle => "module is already being brought"
  | noSource => "no module loader configured"
  | refused reasons => ": ".intercalate reasons

end LoadProblem

/-- A fault of a program, which costs the node that met it its
value and nothing else. -/
inductive Fault where
  | undefined (subject : Subject) (name : String)
  | arity (name : String) (expected got : Nat)
  | constant (name : String)
  | mismatch (what : Mismatch)
  | unknownOperator (op : String)
  | unknownKind (name : String)
  | tooDeep (depth limit : Nat)
  | load (path : String) (problem : LoadProblem)
deriving DecidableEq, Repr

namespace Fault

/-- The category of a fault in diagnostics. -/
def category : Fault → String
  | undefined .. => "LookupError"
  | arity .. => "ArityError"
  | constant .. => "ConstAssignError"
  | mismatch .. => "TypeMismatchError"
  | unknownOperator .. => "UnknownOperatorError"
  | unknownKind .. => "UnknownTypeNameError"
  | tooDeep .. => "StackOverflowError"
  | load .. => "LoadError"

/-- What is said about a fault. -/
def message : Fault → String
  | undefined subject name => s!"undefined {subject.word} `{name}`"
  | arity name expected got => s!"`{name}` expects {expected} argument(s), got {got}"
  | constant name => s!"cannot assign to constant `{name}`"
  | mismatch what => what.message
  | unknownOperator op => s!"unknown operator `{op}`"
  | unknownKind name => s!"unknown type name `{name}`"
  | tooDeep depth limit => s!"call depth {depth} exceeds the limit of {limit}"
  | load path problem => s!"cannot bring `{path}`: {problem.message}"

end Fault

/-- Whether as many arguments are given as expected. -/
def checkArity (name : String) (expected got : Nat) : Except Fault Unit :=
  if expected = got then .ok () else .error (.arity name expected got)

end Treewalk
